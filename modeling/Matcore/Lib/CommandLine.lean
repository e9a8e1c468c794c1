import Mathlib.Data.List.Basic

/-!
# Splitting command lines

The two documented ways of splitting a text into arguments, as machines that read one character
at a time. `blank` says which characters separate arguments.

* `Windows`: the rules of the Microsoft C runtime. Backslashes are literal unless a run of them
  ends at a double quote; an even run leaves the quote its meaning, an odd run makes it literal;
  in a quoted part two quotes stand for one.
* `Gnu`: a backslash makes the next character literal, and either kind of quotes groups.
-/

namespace CommandLine

open List (replicate append_assoc mem_cons_self mem_cons_of_mem)

abbrev Token := List UInt8

def backslash : UInt8 := 92
def doubleQuote : UInt8 := 34
def singleQuote : UInt8 := 39

variable {blank : UInt8 → Bool} {c : UInt8}

namespace Windows

inductive Mode where
  | outside
  | inside
  /-- Behind the quote that ends a quoted part: one more quote is literal. -/
  | closed
  deriving DecidableEq

structure State where
  done : List Token := []
  /-- The argument being read, without the backslashes that are pending. -/
  token : Option Token := none
  pending : ℕ := 0
  mode : Mode := .outside

/-- The argument being read, with its backslashes taken literally. -/
def State.text (s : State) : Token := s.token.getD [] ++ replicate s.pending backslash

/-- The arguments when the text ends here. -/
def State.finish (s : State) : List Token :=
  match s.token with
  | none => s.done
  | some _ => s.done ++ [s.text]

/-- A mode behind any character but a double quote. -/
def Mode.next : Mode → Mode
  | .inside => .inside
  | _ => .outside

/-- A double quote behind the pending backslashes. -/
def State.quote (s : State) : State :=
  let text := s.token.getD [] ++ replicate (s.pending / 2) backslash
  if s.pending % 2 = 1 then { s with token := some (text ++ [doubleQuote]), pending := 0 }
  else
    match s.mode with
    | .outside => { s with token := some text, pending := 0, mode := .inside }
    | .inside => { s with token := some text, pending := 0, mode := .closed }
    | .closed => { s with token := some (text ++ [doubleQuote]), pending := 0, mode := .inside }

def step (blank : UInt8 → Bool) (s : State) (c : UInt8) : State :=
  if c = backslash then
    { s with token := some (s.token.getD []), pending := s.pending + 1, mode := s.mode.next }
  else if c = doubleQuote then s.quote
  else if blank c && s.mode ≠ .inside then { done := s.finish }
  else { s with token := some (s.text ++ [c]), pending := 0, mode := s.mode.next }

def run (blank : UInt8 → Bool) (s : State) (text : Token) : State := text.foldl (step blank) s

/-- The arguments of a text. -/
def split (blank : UInt8 → Bool) (text : Token) : List Token := (run blank {} text).finish

variable {s : State} {done : List Token} {text token : Token} {n : ℕ}

theorem run_append (a b : Token) : run blank s (a ++ b) = run blank (run blank s a) b :=
  List.foldl_append

@[simp] theorem run_nil : run blank s [] = s := rfl

@[simp] theorem run_cons (rest : Token) : run blank s (c :: rest) = run blank (step blank s c) rest :=
  rfl

/-- Inside a quoted part. -/
def quoted (done : List Token) (token : Token) (n : ℕ) : State := ⟨done, some token, n, .inside⟩

/-- An argument has been read up to a place where it may end. -/
structure Ended (s : State) (done : List Token) (token : Token) : Prop where
  done : s.done = done
  some : s.token.isSome = true
  text : s.text = token
  mode : s.mode ≠ .inside

theorem Ended.finish (h : Ended s done token) : s.finish = done ++ [token] := by
  obtain ⟨read, hread⟩ := Option.isSome_iff_exists.1 h.some
  have hdone := h.done
  have htext := h.text
  unfold State.finish
  rw [hread]
  rw [hdone, htext]

/-- A separator between arguments. -/
theorem step_start (done : List Token) (hb : blank c = true) (h1 : c ≠ backslash)
    (h2 : c ≠ doubleQuote) :
    step blank { done := done } c = { done := done } := by
  simp [step, State.finish, hb, h1, h2]

theorem Ended.step (h : Ended s done token) (hb : blank c = true) (h1 : c ≠ backslash)
    (h2 : c ≠ doubleQuote) : step blank s c = { done := done ++ [token] } := by
  have hends : (blank c && s.mode ≠ .inside) = true := by
    rw [hb, decide_eq_true h.mode]
    rfl
  unfold Windows.step
  rw [if_neg h1, if_neg h2, if_pos hends, h.finish]

theorem step_quoted_backslash :
    step blank (quoted done token n) backslash = quoted done token (n + 1) := rfl

theorem run_quoted_backslashes (k : ℕ) :
    run blank (quoted done token n) (replicate k backslash) = quoted done token (n + k) := by
  induction k generalizing n with
  | zero => rfl
  | succ k ih => rw [List.replicate_succ, run_cons, step_quoted_backslash, ih, Nat.add_right_comm,
      Nat.add_assoc]

/-- An even run of backslashes and a quote end the part. -/
theorem run_quoted_close (done : List Token) (token : Token) (k : ℕ) :
    run blank (quoted done token 0) (replicate (2 * k) backslash ++ [doubleQuote]) =
      ⟨done, some (token ++ replicate k backslash), 0, .closed⟩ := by
  have heven : 2 * k % 2 = 0 := Nat.mul_mod_right 2 k
  have hhalf : 2 * k / 2 = k := Nat.mul_div_cancel_left k (by decide)
  rw [run_append, run_quoted_backslashes, Nat.zero_add]
  simp [step, doubleQuote, backslash, State.quote, quoted, heven, hhalf]

/-- An odd run of backslashes and a quote stand for half of them and the quote. -/
theorem run_quoted_literal (done : List Token) (token : Token) (k : ℕ) :
    run blank (quoted done token 0) (replicate (2 * k + 1) backslash ++ [doubleQuote]) =
      quoted done (token ++ replicate k backslash ++ [doubleQuote]) 0 := by
  have hodd : (2 * k + 1) % 2 = 1 := by omega
  have hhalf : (2 * k + 1) / 2 = k := by omega
  rw [run_append, run_quoted_backslashes, Nat.zero_add]
  simp [step, doubleQuote, backslash, State.quote, quoted, hodd, hhalf]

/-- Any other character takes the backslashes before it literally. -/
theorem run_quoted_other (done : List Token) (token : Token) (k : ℕ) (h1 : c ≠ backslash)
    (h2 : c ≠ doubleQuote) :
    run blank (quoted done token 0) (replicate k backslash ++ [c]) =
      quoted done (token ++ replicate k backslash ++ [c]) 0 := by
  rw [run_append, run_quoted_backslashes, Nat.zero_add]
  simp [step, h1, h2, quoted, State.text, Mode.next]

/-- A character that is neither a separator nor a quote is literal outside of quotes. -/
theorem step_plain (hm : s.mode = .outside) (hb : blank c = false) (hq : c ≠ doubleQuote) :
    (step blank s c).done = s.done ∧ (step blank s c).token.isSome = true ∧
      (step blank s c).text = s.text ++ [c] ∧ (step blank s c).mode = .outside := by
  unfold step
  split
  · next hc =>
    subst hc
    refine ⟨rfl, rfl, ?_, by rw [hm]; rfl⟩
    simp only [State.text, Option.getD_some]
    rw [List.replicate_succ', append_assoc]
  · simp [hb, hm, State.text, Mode.next]

theorem run_plain (hm : s.mode = .outside) (hb : ∀ c ∈ text, blank c = false)
    (hq : ∀ c ∈ text, c ≠ doubleQuote) (hsome : s.token.isSome = true ∨ text ≠ []) :
    Ended (run blank s text) s.done (s.text ++ text) := by
  induction text generalizing s with
  | nil =>
    have htoken := hsome.resolve_right (not_not.2 rfl)
    refine ⟨rfl, htoken, (List.append_nil _).symm, ?_⟩
    rw [run_nil, hm]
    decide
  | cons c rest ih =>
    obtain ⟨hdone, htoken, htext, hmode⟩ :=
      step_plain hm (hb c mem_cons_self) (hq c mem_cons_self)
    have hrest := ih hmode (fun x hx => hb x (mem_cons_of_mem c hx))
      (fun x hx => hq x (mem_cons_of_mem c hx)) (Or.inl htoken)
    rw [hdone, htext, append_assoc] at hrest
    exact hrest

end Windows

namespace Gnu

structure State where
  done : List Token := []
  token : Option Token := none
  /-- Behind a backslash. -/
  escaped : Bool := false
  /-- The quote that ends the quoted part being read. -/
  closing : Option UInt8 := none

def State.push (s : State) (c : UInt8) : State :=
  { s with token := some (s.token.getD [] ++ [c]), escaped := false }

def State.finish (s : State) : List Token :=
  match s.token with
  | none => s.done
  | some token => s.done ++ [token]

def step (blank : UInt8 → Bool) (s : State) (c : UInt8) : State :=
  if s.escaped then s.push c
  else if c = backslash then { s with token := some (s.token.getD []), escaped := true }
  else
    match s.closing with
    | some quote => if c = quote then { s with closing := none } else s.push c
    | none =>
      if c = doubleQuote || c = singleQuote then
        { s with token := some (s.token.getD []), closing := some c }
      else if blank c then { done := s.finish }
      else s.push c

def run (blank : UInt8 → Bool) (s : State) (text : Token) : State := text.foldl (step blank) s

/-- The arguments of a text. -/
def split (blank : UInt8 → Bool) (text : Token) : List Token := (run blank {} text).finish

variable {s : State} {done : List Token} {text token : Token}

theorem run_append (a b : Token) : run blank s (a ++ b) = run blank (run blank s a) b :=
  List.foldl_append

@[simp] theorem run_nil : run blank s [] = s := rfl

@[simp] theorem run_cons (rest : Token) : run blank s (c :: rest) = run blank (step blank s c) rest :=
  rfl

/-- An argument has been read, outside of quotes. -/
def ended (done : List Token) (token : Token) : State := ⟨done, some token, false, none⟩

theorem step_ended (done : List Token) (token : Token) (hb : blank c = true) (h1 : c ≠ backslash)
    (h2 : c ≠ doubleQuote)
    (h3 : c ≠ singleQuote) : step blank (ended done token) c = { done := done ++ [token] } := by
  simp [step, ended, h1, h2, h3, hb, State.finish]

/-- Inside double quotes. -/
def quoted (done : List Token) (token : Token) : State := ⟨done, some token, false, some doubleQuote⟩

theorem step_quoted_close (done : List Token) (token : Token) :
    step blank (quoted done token) doubleQuote = ended done token := by
  simp [step, quoted, ended, doubleQuote, backslash]

theorem run_quoted_escape : run blank (quoted done token) [backslash, c] =
    quoted done (token ++ [c]) := by
  simp [step, quoted, State.push]

theorem step_quoted_other (h1 : c ≠ backslash) (h2 : c ≠ doubleQuote) :
    step blank (quoted done token) c = quoted done (token ++ [c]) := by
  simp [step, quoted, h1, h2, State.push]

theorem run_plain (hb : ∀ c ∈ text, blank c = false) (h1 : ∀ c ∈ text, c ≠ backslash)
    (h2 : ∀ c ∈ text, c ≠ doubleQuote) (h3 : ∀ c ∈ text, c ≠ singleQuote) :
    run blank (ended done token) text = ended done (token ++ text) := by
  induction text generalizing token with
  | nil => rw [run_nil, List.append_nil]
  | cons c rest ih =>
    have hc := mem_cons_self (a := c) (l := rest)
    have hstep : step blank (ended done token) c = ended done (token ++ [c]) := by
      simp [step, ended, h1 c hc, h2 c hc, h3 c hc, hb c hc, State.push]
    rw [run_cons, hstep, ih (fun x hx => hb x (mem_cons_of_mem c hx))
      (fun x hx => h1 x (mem_cons_of_mem c hx)) (fun x hx => h2 x (mem_cons_of_mem c hx))
      (fun x hx => h3 x (mem_cons_of_mem c hx)), append_assoc]
    rfl

end Gnu

end CommandLine
