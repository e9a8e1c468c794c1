import Matcore.Lib.Reorder

/-!
# Work on several streams

A host issues work to streams, waits for streams, and does something itself in between. The work of
one stream runs in the order in which it was issued; nothing else is ordered but by waiting.
-/

namespace StreamOrder

open List (range mem_cons mem_cons_self mem_filter mem_cons_of_mem)

variable {S O : Type*}

inductive Event (S O : Type*) where
  | work (stream : S) (op : O)
  | host (op : O)
  | synchronize (stream : S)
  deriving DecidableEq

def Event.op : Event S O → Option O
  | .work _ op => some op
  | .host op => some op
  | .synchronize _ => none

/-- One operation has to run before another: they are on one stream, the host did the first before
it issued the second, or it waited for the first. -/
inductive Before (events : List (Event S O)) (i j : ℕ) : Prop
  | stream {s a b} (lt : i < j) (first : events[i]? = some (.work s a))
      (second : events[j]? = some (.work s b))
  | host {a} (lt : i < j) (first : events[i]? = some (.host a))
  | waited {s a k} (lt : i < k) (lt' : k < j) (first : events[i]? = some (.work s a))
      (wait : events[k]? = some (.synchronize s))

/-- The times at which events may happen. -/
structure Schedule (events : List (Event S O)) (time : ℕ → ℕ) : Prop where
  injective : Function.Injective time
  before : ∀ i j, Before events i j → time i < time j

variable {events : List (Event S O)} {time : ℕ → ℕ}

/-- An order in which the events may happen. -/
structure Run (events : List (Event S O)) (order : List ℕ) : Prop where
  perm : order.Perm (range events.length)
  before : ∀ i j, Before events i j → ¬ [j, i].Sublist order

variable {op : O} {i : ℕ}

/-- What the host does is done before all that it issues later. -/
theorem Schedule.host (h : Schedule events time) {j : ℕ} (hlt : i < j)
    (hi : events[i]? = some (.host op)) : time i < time j :=
  h.before i j (.host hlt hi)

theorem on_or_off (events : List (Event S O)) (s : S) (i : ℕ) :
    (∃ op, events[i]? = some (.work s op)) ∨ ∀ op, events[i]? ≠ some (.work s op) := by
  by_cases h : ∃ op, events[i]? = some (.work s op)
  · exact .inl h
  · exact .inr fun op hop => h ⟨op, hop⟩

variable {M : Type}

/-- What an event does to a memory. -/
def apply (effect : O → M → M) (events : List (Event S O)) (memory : M) (i : ℕ) : M :=
  match events[i]?.bind Event.op with
  | some op => effect op memory
  | none => memory

/-- The memory behind some events, in an order. -/
def outcome (effect : O → M → M) (events : List (Event S O)) (order : List ℕ) (memory : M) : M :=
  order.foldl (apply effect events) memory

theorem outcome_range (effect : O → M → M) (memory : M) :
    outcome effect events (range events.length) memory =
      (events.filterMap Event.op).foldl (fun memory op => effect op memory) memory := by
  have hprefix : ∀ n ≤ events.length, (range n).foldl (apply effect events) memory =
      ((events.take n).filterMap Event.op).foldl (fun memory op => effect op memory) memory := by
    intro n hn
    induction n with
    | zero => rfl
    | succ n ih =>
      have hget : events[n]? = some events[n] := List.getElem?_eq_getElem hn
      rw [List.range_succ, List.foldl_append, ih (by omega), List.take_add_one,
        List.filterMap_append, List.foldl_append, hget]
      cases hop : events[n].op with
      | none => simp [apply, hget, hop]
      | some op => simp [apply, hget, hop]
  rw [outcome, hprefix _ le_rfl, List.take_length]

variable {T : Type*}

def Event.onStreams (f : S → T) : Event S O → Event T O
  | .work s op => .work (f s) op
  | .host op => .host op
  | .synchronize s => .synchronize (f s)

theorem Event.op_onStreams (f : S → T) (e : Event S O) : (e.onStreams f).op = e.op := by
  cases e with
  | work | host | synchronize => rfl

variable [DecidableEq S]

def Event.isOn (s : S) : Event S O → Bool
  | .work stream _ => stream = s
  | _ => false

/-- The schedule in which the work of a stream runs behind all others. -/
def delayed (events : List (Event S O)) (s : S) (i : ℕ) : ℕ :=
  if events[i]?.any (·.isOn s) then 2 * (events.length + i) + 1 else 2 * i

variable {s : S}

theorem delayed_on (h : events[i]? = some (.work s op)) :
    delayed events s i = 2 * (events.length + i) + 1 := by
  have hon : events[i]?.any (·.isOn s) = true := by
    rw [h]
    exact decide_eq_true rfl
  rw [delayed, if_pos hon]

theorem delayed_off (h : ∀ op, events[i]? ≠ some (.work s op)) : delayed events s i = 2 * i := by
  have hoff : events[i]?.any (·.isOn s) = false := by
    cases hi : events[i]? with
    | none => rfl
    | some e =>
      cases e with
      | host op => rfl
      | synchronize stream => rfl
      | work stream op =>
        refine decide_eq_false fun hs => h op ?_
        rw [hi, hs]
  rw [delayed, hoff, if_neg Bool.false_ne_true]

/-- The work of a stream that nobody waits for may run last. -/
theorem schedule_delayed (h : .synchronize s ∉ events) : Schedule events (delayed events s) := by
  constructor
  · intro i j hij
    rcases on_or_off events s i with ⟨a, hi⟩ | hi <;> rcases on_or_off events s j with ⟨b, hj⟩ | hj
    · rw [delayed_on hi, delayed_on hj] at hij
      omega
    · rw [delayed_on hi, delayed_off hj] at hij
      omega
    · rw [delayed_off hi, delayed_on hj] at hij
      omega
    · rw [delayed_off hi, delayed_off hj] at hij
      omega
  · intro i j hbefore
    have hlt : i < j := by
      cases hbefore with
      | stream lt _ _ => exact lt
      | host lt _ => exact lt
      | waited lt lt' _ _ => omega
    rcases on_or_off events s i with ⟨a, hi⟩ | hi
    · -- the event behind is on the stream too
      have hj : ∃ b, events[j]? = some (.work s b) := by
        cases hbefore with
        | stream _ first second =>
          rw [hi, Option.some.injEq, Event.work.injEq] at first
          rw [← first.1] at second
          exact ⟨_, second⟩
        | host _ first =>
          rw [hi] at first
          cases first
        | waited _ _ first wait =>
          rw [hi, Option.some.injEq, Event.work.injEq] at first
          rw [← first.1] at wait
          exact absurd (List.mem_of_getElem? wait) h
      obtain ⟨b, hj⟩ := hj
      rw [delayed_on hi, delayed_on hj]
      omega
    · rw [delayed_off hi]
      rcases on_or_off events s j with ⟨b, hj⟩ | hj
      · rw [delayed_on hj]
        omega
      · rw [delayed_off hj]
        omega

/-- The work of the stream runs behind all that is not on it. -/
theorem delayed_lt {j : ℕ} (hi : events[i]? = some (.work s op))
    (hj : ∀ op, events[j]? ≠ some (.work s op)) (hlt : j < events.length) :
    delayed events s j < delayed events s i := by
  rw [delayed_on hi, delayed_off hj]
  omega

/-- The work that the host has not waited for. -/
def pending (waiting : List (S × O)) : Event S O → List (S × O)
  | .work s op => (s, op) :: waiting
  | .host _ => waiting
  | .synchronize s => waiting.filter (·.1 ≠ s)

/-- Every operation is free of the work that is pending on other streams. -/
def Settled (free : O → O → Prop) : List (S × O) → List (Event S O) → Prop
  | _, [] => True
  | waiting, e :: events =>
    (∀ op, e.op = some op → ∀ x ∈ waiting, e.isOn x.1 ∨ free x.2 op) ∧
      Settled free (pending waiting e) events

variable {free : O → O → Prop} {waiting : List (S × O)}

theorem settled_append {events' : List (Event S O)} : Settled free waiting (events ++ events') ↔
    Settled free waiting events ∧ Settled free (events.foldl pending waiting) events' := by
  induction events generalizing waiting with
  | nil => simp [Settled]
  | cons e events ih => rw [List.cons_append, Settled, ih, Settled, List.foldl_cons, and_assoc]

theorem mem_pending {x : S × O} (h : x ∈ events.foldl pending waiting) :
    x ∈ waiting ∨ .work x.1 x.2 ∈ events := by
  induction events generalizing waiting with
  | nil => exact .inl h
  | cons e events ih =>
    rcases ih h with hx | hx
    · cases e with
      | work s op =>
        rcases mem_cons.1 hx with rfl | hx
        · exact .inr mem_cons_self
        · exact .inl hx
      | host op => exact .inl hx
      | synchronize s => exact .inl (mem_filter.1 hx).1
    · exact .inr (mem_cons_of_mem e hx)

/-- The work of a single stream is settled. -/
theorem settled_single [Subsingleton S] (h : ∀ op, .host op ∉ events) :
    Settled free waiting events := by
  induction events generalizing waiting with
  | nil => trivial
  | cons e events ih =>
    refine ⟨fun op hop x _ => .inl ?_, ih fun op hop => h op (mem_cons_of_mem e hop)⟩
    cases e with
    | work s a => exact decide_eq_true (Subsingleton.elim s x.1)
    | host a => exact absurd mem_cons_self (h a)
    | synchronize s => cases hop

theorem pending_of_waiting {x : S × O} (hx : x ∈ waiting) (h : .synchronize x.1 ∉ events) :
    x ∈ events.foldl pending waiting := by
  induction events generalizing waiting with
  | nil => exact hx
  | cons e events ih =>
    rw [mem_cons, not_or] at h
    refine ih ?_ h.2
    cases e with
    | work s op => exact mem_cons_of_mem _ hx
    | host op => exact hx
    | synchronize s =>
      refine mem_filter.2 ⟨hx, decide_eq_true ?_⟩
      rintro rfl
      exact h.1 rfl

/-- **Operations that are not ordered are free of each other.** -/
theorem Settled.free_of_lt (h : Settled free [] events) {j : ℕ} (hlt : i < j) {a b : O}
    (hi : events[i]?.bind Event.op = some a) (hj : events[j]?.bind Event.op = some b) :
    Before events i j ∨ free a b := by
  obtain ⟨x, hx, hxop⟩ := Option.bind_eq_some_iff.1 hi
  obtain ⟨e, he, heop⟩ := Option.bind_eq_some_iff.1 hj
  obtain ⟨hjlength, rfl⟩ := List.getElem?_eq_some_iff.1 he
  have hilength := (List.getElem?_eq_some_iff.1 hx).1
  -- the events before the second one, with the first one among them
  have hsplit : events = events.take i ++ x :: ((events.take j).drop (i + 1) ++ events.drop j) := by
    have htake : events.take j = events.take i ++ x :: (events.take j).drop (i + 1) := by
      have hget : (events.take j)[i]? = some x := by rw [List.getElem?_take_of_lt hlt, hx]
      obtain ⟨hbound, hgot⟩ := List.getElem?_eq_some_iff.1 hget
      have hcut := (List.take_append_drop i (events.take j)).symm
      rw [List.drop_eq_getElem_cons hbound, hgot, List.take_take, min_eq_left hlt.le] at hcut
      exact hcut
    conv_lhs => rw [← List.take_append_drop j events, htake]
    simp
  cases x with
  | synchronize s => cases hxop
  | host op => exact .inl (.host hlt hx)
  | work s op =>
    cases hxop
    by_cases hwait : .synchronize s ∈ (events.take j).drop (i + 1)
    · obtain ⟨k, hk⟩ := List.mem_iff_getElem?.1 hwait
      have hkj : i + 1 + k < j := by
        have hbound := (List.getElem?_eq_some_iff.1 hk).1
        rw [List.length_drop, List.length_take] at hbound
        omega
      rw [List.getElem?_drop, List.getElem?_take_of_lt hkj] at hk
      exact .inl (.waited (by omega) hkj hx hk)
    · rw [hsplit, settled_append, List.drop_eq_getElem_cons hjlength] at h
      obtain ⟨-, hrest⟩ := h.2.imp_right settled_append.1
      have hstill : (s, a) ∈ ((events.take j).drop (i + 1)).foldl pending
          ((s, a) :: (events.take i).foldl pending []) :=
        pending_of_waiting mem_cons_self hwait
      rcases hrest.2.1 b heop _ hstill with hon | hfree
      · -- they are on one stream
        cases hevent : events[j] with
        | work stream op =>
          rw [hevent] at hon heop
          obtain rfl : stream = s := of_decide_eq_true hon
          exact .inl (.stream hlt hx (he.trans (congrArg some hevent)))
        | host op | synchronize stream =>
          rw [hevent] at hon
          cases hon
      · exact .inr hfree

/-- **Every order does what the order of issue does.** -/
theorem Run.outcome_eq {effect : O → M → M} {order : List ℕ} (h : Run events order)
    (hsettled : Settled free [] events)
    (hfree : ∀ a b, free a b → ∀ memory, effect b (effect a memory) = effect a (effect b memory))
    (memory : M) : outcome effect events order memory =
      (events.filterMap Event.op).foldl (fun memory op => effect op memory) memory := by
  rw [← outcome_range, outcome, outcome]
  refine Reorder.foldl_reorder h.perm (h.perm.nodup_iff.2 List.nodup_range)
    (fun i j hij hji memory => ?_) memory
  have hlt : i < j := by
    have hpair := List.pairwise_lt_range.sublist hij
    simpa using hpair
  unfold apply
  cases hi : events[i]?.bind Event.op with
  | none => rfl
  | some a =>
    cases hj : events[j]?.bind Event.op with
    | none => rfl
    | some b =>
      rcases hsettled.free_of_lt hlt hi hj with hbefore | hab
      · exact absurd hji (h.before i j hbefore)
      · exact hfree a b hab memory

/-- **Settled events stay so** on other streams, even if some of them become one, and behind work that
is free of all of them. -/
theorem Settled.run [DecidableEq T] (h : Settled free waiting events) (f : S → T) {background : Set O}
    (hback : ∀ z ∈ background, ∀ e ∈ events, ∀ op, e.op = some op → free z op) {waiting' : List (T × O)}
    (hwaiting : ∀ x ∈ waiting', x.2 ∈ background ∨ ∃ y ∈ waiting, x = (f y.1, y.2)) :
    Settled free waiting' (events.map (Event.onStreams f)) ∧
      ∀ x ∈ (events.map (Event.onStreams f)).foldl pending waiting',
        x.2 ∈ background ∨ ∃ y ∈ events.foldl pending waiting, x = (f y.1, y.2) := by
  induction events generalizing waiting waiting' with
  | nil => exact ⟨trivial, hwaiting⟩
  | cons e events ih =>
    obtain ⟨hhere, hrest⟩ := h
    have hnext : ∀ x ∈ pending waiting' (e.onStreams f),
        x.2 ∈ background ∨ ∃ y ∈ pending waiting e, x = (f y.1, y.2) := by
      intro x hx
      cases e with
      | work s op =>
        rcases mem_cons.1 hx with rfl | hx
        · exact .inr ⟨(s, op), mem_cons_self, rfl⟩
        · exact (hwaiting x hx).imp_right fun ⟨y, hy, hxy⟩ => ⟨y, mem_cons_of_mem _ hy, hxy⟩
      | host op => exact hwaiting x hx
      | synchronize s =>
        obtain ⟨hx, hne⟩ := mem_filter.1 hx
        refine (hwaiting x hx).imp_right fun ⟨y, hy, hxy⟩ => ⟨y, mem_filter.2 ⟨hy, ?_⟩, hxy⟩
        refine decide_eq_true fun hys => of_decide_eq_true hne ?_
        rw [hxy, hys]
    obtain ⟨hsettled, hpending⟩ := ih hrest
      (fun z hz e he => hback z hz e (mem_cons_of_mem _ he)) hnext
    refine ⟨⟨fun op hop x hx => ?_, hsettled⟩, hpending⟩
    rw [Event.op_onStreams] at hop
    rcases hwaiting x hx with hz | ⟨y, hy, rfl⟩
    · exact .inr (hback x.2 hz e mem_cons_self op hop)
    · refine (hhere op hop y hy).imp_left fun hon => ?_
      cases e with
      | work s op => exact decide_eq_true (congrArg f (of_decide_eq_true hon))
      | host | synchronize => cases hon

end StreamOrder
