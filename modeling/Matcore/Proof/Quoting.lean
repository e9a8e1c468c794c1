import Matcore.Lib.CommandLine
import Matcore.Support.Quoting

/-!
# Quoting is undone by the documented tokenisers

One quoted argument takes a tokeniser from a place between arguments to the end of that argument,
whatever the argument holds: this is an induction over its characters, with the backslashes that
are pending. The separators of a line then put the arguments one behind the other.
-/

namespace Matcore.Support.Quoting

open List (replicate append_nil append_assoc mem_cons_self mem_cons_of_mem)
open CommandLine

/-- The separators of a tokeniser: the space is one, and all are white space (or NUL, which ends
the text for some tools). -/
structure Separators (blank : UInt8 → Bool) : Prop where
  space : blank 32 = true
  isspace : ∀ ch, blank ch = true → isspace ch = true ∨ ch = 0

variable {blank : UInt8 → Bool} {done : List Token} {argument : Argument}

theorem Separators.not_blank (h : Separators blank) {ch : UInt8} (h0 : ch ≠ 0)
    (hs : Quoting.isspace ch = false) : blank ch = false := by
  cases hb : blank ch with
  | false => rfl
  | true =>
    rcases h.isspace ch hb with hspace | hnul
    · rw [hs] at hspace
      cases hspace
    · exact absurd hnul h0

/-- **The quoted body**, with `n` backslashes pending in the loop of the quoting. -/
theorem run_windowsBody (n : ℕ) (token : Token) :
    Windows.run blank (Windows.quoted done token 0) (windowsBody n argument ++ [doubleQuote]) =
      ⟨done, some (token ++ replicate n backslash ++ argument), 0, .closed⟩ := by
  induction argument generalizing n token with
  | nil =>
    unfold windowsBody
    rw [Nat.mul_comm, append_nil]
    exact Windows.run_quoted_close done token n
  | cons ch rest ih =>
    unfold windowsBody
    by_cases hbackslash : ch = 92
    · rw [if_pos hbackslash, ih, hbackslash, List.replicate_succ', append_assoc,
        append_assoc, append_assoc]
      rfl
    rw [if_neg hbackslash]
    by_cases hquote : ch = 34
    · have hsplit : replicate (n * 2 + 1) 92 ++ 34 :: windowsBody 0 rest ++ [doubleQuote] =
          (replicate (2 * n + 1) backslash ++ [doubleQuote]) ++
            (windowsBody 0 rest ++ [doubleQuote]) := by
        rw [Nat.mul_comm, append_assoc, append_assoc]
        rfl
      rw [if_pos hquote, hsplit, Windows.run_append,
        Windows.run_quoted_literal, ih, hquote]
      simp [doubleQuote]
    · have hsplit : replicate n 92 ++ ch :: windowsBody 0 rest ++ [doubleQuote] =
          (replicate n backslash ++ [ch]) ++ (windowsBody 0 rest ++ [doubleQuote]) := by
        rw [append_assoc, append_assoc]
        rfl
      rw [if_neg hquote, hsplit, Windows.run_append,
        Windows.run_quoted_other done token n hbackslash hquote, ih]
      simp

theorem run_quoteWindows (h : Separators blank) (done : List Token) (h0 : ∀ ch ∈ argument, ch ≠ 0) :
    Windows.Ended (Windows.run blank { done := done } (quoteWindowsCommandLineArgument argument))
      done argument := by
  unfold quoteWindowsCommandLineArgument
  cases hquotes : argument.isEmpty || argument.any fun ch => isspace ch || ch = 34 with
  | true =>
    have hopen : Windows.run blank { done := done } [34] = Windows.quoted done [] 0 := by
      simp [Windows.step, Windows.State.quote, Windows.quoted, backslash, doubleQuote]
    have hbody : Windows.run blank (Windows.quoted done [] 0) (windowsBody 0 argument ++ [34]) = _ :=
      run_windowsBody 0 []
    simp only [Bool.not_true, Bool.false_eq_true, if_false]
    rw [append_assoc, Windows.run_append, hopen]
    refine hbody ▸ ⟨rfl, rfl, ?_, Windows.Mode.noConfusion⟩
    simp [Windows.State.text]
  | false =>
    simp only [Bool.or_eq_false_iff, List.isEmpty_eq_false_iff, List.any_eq_false, Bool.not_eq_true,
      decide_eq_false_iff_not] at hquotes
    obtain ⟨hne, hplain⟩ := hquotes
    exact Windows.run_plain rfl (fun ch hch => h.not_blank (h0 ch hch) (hplain ch hch).1)
      (fun ch hch => (hplain ch hch).2) (Or.inr hne)

/-- The arguments of a line are those it was made of, with or without a separator behind it. -/
theorem split_buildWindowsCommandLine (h : Separators blank) (done : List Token)
    (arguments : List Argument) (h0 : ∀ argument ∈ arguments, ∀ ch ∈ argument, ch ≠ 0) :
    (Windows.run blank { done := done } (buildWindowsCommandLine arguments)).finish =
        done ++ arguments ∧
      (blank 10 = true →
        (Windows.run blank { done := done } (buildWindowsCommandLine arguments ++ [10])).finish =
          done ++ arguments) := by
  induction arguments generalizing done with
  | nil =>
    refine ⟨(append_nil done).symm, fun hnewline => ?_⟩
    have hskip := Windows.step_start done hnewline (by decide) (by decide)
    unfold buildWindowsCommandLine
    rw [List.nil_append, Windows.run_cons, hskip]
    exact (append_nil done).symm
  | cons argument rest ih =>
    have hended := run_quoteWindows h done (h0 argument mem_cons_self)
    have hrest := fun a ha => h0 a (mem_cons_of_mem argument ha)
    cases rest with
    | nil =>
      refine ⟨hended.finish, fun hnewline => ?_⟩
      have hline := hended.step hnewline (by decide) (by decide)
      unfold buildWindowsCommandLine
      rw [Windows.run_append, Windows.run_cons, hline]
      rfl
    | cons second others =>
      have hspace := hended.step h.space (by decide) (by decide)
      obtain ⟨htail, hline⟩ := ih (done ++ [argument]) hrest
      unfold buildWindowsCommandLine
      rw [append_assoc, List.cons_append, Windows.run_append, Windows.run_append,
        Windows.run_cons, Windows.run_cons, hspace, htail, append_assoc]
      refine ⟨rfl, fun hnewline => ?_⟩
      rw [hline hnewline, append_assoc]
      rfl

theorem run_escaped (argument : Argument) (token : Token) :
    Gnu.run blank (Gnu.quoted done token)
        (argument.flatMap fun ch => if ch = 92 || ch = 34 then [92, ch] else [ch]) =
      Gnu.quoted done (token ++ argument) := by
  induction argument generalizing token with
  | nil => rw [append_nil]; rfl
  | cons ch rest ih =>
    have hone : Gnu.run blank (Gnu.quoted done token)
        (if ch = 92 || ch = 34 then [92, ch] else [ch]) = Gnu.quoted done (token ++ [ch]) := by
      by_cases hescape : ch = 92 || ch = 34
      · rw [if_pos hescape]
        exact Gnu.run_quoted_escape
      · rw [if_neg hescape]
        simp only [Bool.or_eq_true, decide_eq_true_eq, not_or] at hescape
        rw [Gnu.run_cons, Gnu.step_quoted_other hescape.1 hescape.2, Gnu.run_nil]
    rw [List.flatMap_cons, Gnu.run_append, hone, ih, append_assoc]
    rfl

theorem run_quoteGnu (h : Separators blank) (done : List Token) (h0 : ∀ ch ∈ argument, ch ≠ 0) :
    Gnu.run blank { done := done } (quoteGnuResponseArgument argument) =
      Gnu.ended done argument := by
  have hopen : Gnu.run blank { done := done } [34] = Gnu.quoted done [] := by
    simp [Gnu.step, Gnu.quoted, backslash, doubleQuote]
  cases argument with
  | nil =>
    have htwo : quoteGnuResponseArgument [] = [34] ++ [doubleQuote] := rfl
    rw [htwo, Gnu.run_append, hopen, Gnu.run_cons, Gnu.step_quoted_close,
      Gnu.run_nil]
  | cons first rest =>
    unfold quoteGnuResponseArgument
    rw [if_neg (by simp)]
    cases hquotes : (first :: rest).any fun ch => isspace ch || ch = 92 || ch = 34 || ch = 39 with
    | true =>
      simp only [Bool.not_true, Bool.false_eq_true, if_false]
      rw [append_assoc, Gnu.run_append, hopen, Gnu.run_append, run_escaped,
        List.nil_append]
      rw [Gnu.run_cons, ← doubleQuote, Gnu.step_quoted_close, Gnu.run_nil]
    | false =>
      simp only [List.any_eq_false, Bool.not_eq_true, Bool.or_eq_false_iff,
        decide_eq_false_iff_not] at hquotes
      have hplain : ∀ ch ∈ first :: rest, blank ch = false := fun ch hch =>
        h.not_blank (h0 ch hch) (hquotes ch hch).1.1.1
      obtain ⟨⟨⟨_, h1⟩, h2⟩, h3⟩ := hquotes first mem_cons_self
      have hfirst : Gnu.step blank { done := done } first = Gnu.ended done [first] := by
        simp [Gnu.step, Gnu.ended, Gnu.State.push, backslash, doubleQuote, singleQuote, h1, h2, h3,
          hplain first mem_cons_self]
      have hrest := fun ch hch => hquotes ch (mem_cons_of_mem first hch)
      simp only [Bool.not_false, if_true]
      rw [Gnu.run_cons, hfirst]
      exact Gnu.run_plain (fun ch hch => hplain ch (mem_cons_of_mem first hch))
        (fun ch hch => (hrest ch hch).1.1.2) (fun ch hch => (hrest ch hch).1.2)
        (fun ch hch => (hrest ch hch).2)

/-- The arguments a response file takes. -/
def Plain (argument : Argument) : Prop := ∀ ch ∈ argument, ch ≠ 0 ∧ ch ≠ 13 ∧ ch ≠ 10

instance (argument : Argument) : Decidable (Plain argument) :=
  inferInstanceAs (Decidable (∀ ch ∈ argument, ch ≠ 0 ∧ ch ≠ 13 ∧ ch ≠ 10))

theorem responseArgumentValid_of_plain (h : Plain argument) :
    responseArgumentValid argument = .ok () := by
  have hnot : ∀ ch : UInt8, (∀ c ∈ argument, c ≠ ch) → argument.contains ch = false := by
    intro ch hch
    cases hc : argument.contains ch with
    | false => rfl
    | true => exact absurd rfl (hch ch (List.contains_iff_mem.1 hc))
  unfold responseArgumentValid
  rw [hnot 0 fun c hc => (h c hc).1, hnot 13 fun c hc => (h c hc).2.1,
    hnot 10 fun c hc => (h c hc).2.2]
  rfl

theorem split_gnuLines (h : Separators blank) (hnewline : blank 10 = true) (done : List Token)
    (arguments : List Argument) (hplain : ∀ argument ∈ arguments, Plain argument) :
    ∃ text, gnuLines arguments = .ok text ∧
      (Gnu.run blank { done := done } text).finish = done ++ arguments := by
  induction arguments generalizing done with
  | nil => exact ⟨[], rfl, (append_nil done).symm⟩
  | cons argument rest ih =>
    have hargument := hplain argument mem_cons_self
    have hended := run_quoteGnu h done fun ch hch => (hargument ch hch).1
    have hline := Gnu.step_ended done argument hnewline (by decide) (by decide)
      (by decide)
    obtain ⟨lines, hlines, hsplit⟩ :=
      ih (done ++ [argument]) fun a ha => hplain a (mem_cons_of_mem argument ha)
    refine ⟨quoteGnuResponseArgument argument ++ 10 :: lines, ?_, ?_⟩
    · unfold gnuLines
      rw [responseArgumentValid_of_plain hargument, hlines]
      rfl
    · rw [Gnu.run_append, hended, Gnu.run_cons, hline, hsplit, append_assoc]
      rfl

/-- The loop writes the command line of the arguments. -/
theorem windowsLine_eq (arguments : List Argument)
    (hplain : ∀ argument ∈ arguments, Plain argument) :
    windowsLine true arguments = .ok (buildWindowsCommandLine arguments) ∧
      (arguments ≠ [] →
        windowsLine false arguments = .ok (32 :: buildWindowsCommandLine arguments)) := by
  induction arguments with
  | nil => exact ⟨rfl, fun h => absurd rfl h⟩
  | cons argument rest ih =>
    have hvalid := responseArgumentValid_of_plain (hplain argument mem_cons_self)
    obtain ⟨_, hbehind⟩ := ih fun a ha => hplain a (mem_cons_of_mem argument ha)
    cases rest with
    | nil =>
      unfold windowsLine
      simp [hvalid, windowsLine, buildWindowsCommandLine, Except.ok_bind]
    | cons second others =>
      unfold windowsLine buildWindowsCommandLine
      simp [hvalid, hbehind (List.cons_ne_nil second others), Except.ok_bind]

theorem split_windowsLine (h : Separators blank) (hnewline : blank 10 = true)
    (arguments : List Argument) (hplain : ∀ argument ∈ arguments, Plain argument) :
    ∃ text, encodeResponseFile arguments .windows = .ok text ∧
      Windows.split blank text = arguments := by
  have hzero : ∀ argument ∈ arguments, ∀ ch ∈ argument, ch ≠ 0 :=
    fun argument ha ch hch => (hplain argument ha ch hch).1
  refine ⟨buildWindowsCommandLine arguments ++ [10], ?_, ?_⟩
  · unfold encodeResponseFile
    rw [(windowsLine_eq arguments hplain).1]
    rfl
  · exact (split_buildWindowsCommandLine h [] arguments hzero).2 hnewline

theorem split_behindProgram (h : Separators blank) (program : Argument) (arguments : List Argument)
    (h0 : ∀ argument ∈ arguments, ∀ ch ∈ argument, ch ≠ 0) :
    ∃ rest, buildWindowsCommandLine (program :: arguments) =
        quoteWindowsCommandLineArgument program ++ rest ∧ Windows.split blank rest = arguments := by
  cases arguments with
  | nil => exact ⟨[], (append_nil _).symm, rfl⟩
  | cons argument others =>
    have hskip := Windows.step_start [] h.space (by decide) (by decide)
    have hsplit := (split_buildWindowsCommandLine h [] (argument :: others) h0).1
    refine ⟨32 :: buildWindowsCommandLine (argument :: others), rfl, ?_⟩
    unfold Windows.split
    rw [Windows.run_cons, hskip]
    exact hsplit

/-- Quoting is undone: the command line by the Windows rules, as a whole and behind its program
name, and the response files by the rules of their tools, which take a newline for a separator. -/
theorem quoting_undone (h : Separators blank) (arguments : List Argument) :
    ((∀ argument ∈ arguments, ∀ ch ∈ argument, ch ≠ 0) →
      Windows.split blank (buildWindowsCommandLine arguments) = arguments ∧
      ∀ program : Argument, ∃ rest, buildWindowsCommandLine (program :: arguments) =
        quoteWindowsCommandLineArgument program ++ rest ∧
          Windows.split blank rest = arguments) ∧
    (blank 10 = true → (∀ argument ∈ arguments, Plain argument) →
      (∃ text, encodeResponseFile arguments .windows = .ok text ∧
        Windows.split blank text = arguments) ∧
      ∃ text, encodeResponseFile arguments .gnu = .ok text ∧
        Gnu.split blank text = arguments) := by
  constructor
  · intro h0
    exact ⟨(split_buildWindowsCommandLine h [] arguments h0).1, fun program =>
      split_behindProgram h program arguments h0⟩
  · intro hnewline hplain
    exact ⟨split_windowsLine h hnewline arguments hplain,
      split_gnuLines h hnewline [] arguments hplain⟩

/-- `a \" b`, a path that ends in a backslash, the empty argument and a quote alone. -/
theorem quoting_undone_fourArguments :
    let whiteSpace := fun ch => isspace ch
    let arguments : List Argument :=
      [[97, 32, 92, 34, 32, 98], [67, 58, 92, 120, 32, 92], [], [39]]
    Windows.split whiteSpace (buildWindowsCommandLine arguments) = arguments ∧
      ∃ text, encodeResponseFile arguments .gnu = .ok text ∧
        Gnu.split whiteSpace text = arguments := by
  have hseparators : Separators fun ch => isspace ch :=
    { space := by decide, isspace := fun _ h => Or.inl h }
  obtain ⟨hline, hfile⟩ := quoting_undone hseparators
    [[97, 32, 92, 34, 32, 98], [67, 58, 92, 120, 32, 92], [], [39]]
  exact ⟨(hline (by simp)).1, (hfile (by decide) (by simp [Plain])).2⟩

end Matcore.Support.Quoting
