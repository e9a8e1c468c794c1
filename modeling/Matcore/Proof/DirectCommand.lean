import Matcore.Driver.DirectCommand

/-!
# The languages of a direct compilation

The compiler's own reading of a command line is a parameter, with its options that take a value and
its languages. The loop over the arguments has a reading too, with its own table of options, and the
two are followed side by side: `Sound` says when they lead to the user's languages.
-/

namespace Matcore.Driver

open List (length_append length_cons)

/-- How the next argument is read. -/
inductive Reading where
  | plain
  /-- The value of an option, and whether the option is `-x`. -/
  | value (language : Bool)
  /-- Behind `--`. -/
  | input
  deriving DecidableEq

def Reading.next (takesValue : String → Bool) (reading : Reading) (argument : String) : Reading :=
  match reading with
  | .plain =>
    if argument = "--" then .input
    else if takesValue argument then .value (argument = "-x")
    else .plain
  | .value _ => .plain
  | .input => .input

/-- The language that is joined to its option. -/
def joinedLanguage (argument : String) : Option String :=
  match argument.toList with
  | '-' :: 'x' :: value => some (String.ofList value)
  | _ => none

/-- The compiler in GNU mode, as far as it tells inputs and languages: `-x` is one of the options
that take the next argument, each of them begins with a dash, and `-save-temps=obj` is none. -/
structure Compiler (L : Type) where
  takesValue : String → Bool
  named : String → L
  byExtension : String → L
  takes_language : takesValue "-x" = true
  takes_dashed : ∀ {argument}, takesValue argument = true → startsWithDash argument = true
  takes_saveTemps : takesValue "-save-temps=obj" = false

namespace Compiler

variable {L : Type} (compiler : Compiler L)

/-- A lone dash stands for the standard input. -/
def takes (reading : Reading) (argument : String) : Bool :=
  match reading with
  | .plain => argument ≠ "--" && !compiler.takesValue argument &&
      (argument = "-" || !startsWithDash argument)
  | .value _ => false
  | .input => true

/-- The name of a language that an argument gives. -/
def chosen (reading : Reading) (argument : String) : Option String :=
  match reading with
  | .plain => if compiler.takesValue argument then none else joinedLanguage argument
  | .value language => if language then some argument else none
  | .input => none

/-- The language in force behind `-x`, where `none` restores detection by extension. -/
def inForce (name : String) : Option L := if name = "none" then none else some (compiler.named name)

/-- The language in force behind an argument. -/
def behind (reading : Reading) (language : Option L) (argument : String) : Option L :=
  match compiler.chosen reading argument with
  | some name => compiler.inForce name
  | none => language

/-- The language of an input. -/
def languageOf (language : Option L) (input : String) : L :=
  language.getD (compiler.byExtension input)

/-- The inputs with their languages. -/
def inputs : Reading → Option L → List String → List (String × L)
  | _, _, [] => []
  | reading, language, argument :: rest =>
    (if compiler.takes reading argument then [(argument, compiler.languageOf language argument)]
      else []) ++
      inputs (reading.next compiler.takesValue argument)
        (compiler.behind reading language argument) rest

/-- The language an input has to get, from the one in the user's list. -/
def required (input : String × L) : String × L :=
  (input.1, if hasMdslExtension input.1 then compiler.named "c++" else input.2)

end Compiler

/-- What the arguments so far mean for the next input. -/
inductive Trail where
  /-- No `.mdsl` input since the last `-x` with a separate value. -/
  | clear
  /-- A `.mdsl` input, and nothing behind it that changes the language. -/
  | mdsl
  /-- A language behind a `.mdsl` input that the loop does not see, such as a joined `-x`. -/
  | joined
  /-- Another input behind a `.mdsl` input. -/
  | other
  /-- Behind a `.mdsl` input, the value of an option that the loop takes for an option `-x`. -/
  | forgotten

namespace Trail

/-- The injected language is in force as far as the loop knows. -/
def active : Trail → Bool
  | .mdsl | .joined => true
  | .clear | .other | .forgotten => false

def behindMdsl : Trail → Trail
  | .joined => .joined
  | _ => .mdsl

def behindOther : Trail → Trail
  | .mdsl | .joined => .other
  | trail => trail

/-- An argument as the loop reads it: `--`, an option, or an input. -/
def before (trail : Trail) (loop : Reading) (argument : String) (rest : List String) : Trail :=
  if loop ≠ .plain then trail
  else if argument = "--" then if rest.any hasMdslExtension then .mdsl else trail
  else if startsWithDash argument then trail
  else if hasMdslExtension argument then trail.behindMdsl
  else trail.behindOther

/-- The loop names a language before the argument. -/
def Names (trail : Trail) (loop : Reading) (argument : String) (rest : List String) : Prop :=
  loop = .plain ∧
    if argument = "--" then rest.any hasMdslExtension = true
    else startsWithDash argument = false ∧ trail.active = !hasMdslExtension argument

instance (trail : Trail) (loop : Reading) (argument : String) (rest : List String) :
    Decidable (trail.Names loop argument rest) :=
  inferInstanceAs (Decidable (_ ∧ ite _ _ _))

/-- The loop sees a separate `-x`. -/
def forget (trail : Trail) (loop : Reading) (argument : String) : Trail :=
  if loop = .plain ∧ argument = "-x" then
    match trail with
    | .mdsl => .forgotten
    | .joined => .clear
    | trail => trail
  else trail

/-- The compiler sees a language. -/
def choose (trail : Trail) (name : Option String) : Trail :=
  match name, trail with
  | none, trail => trail
  | some _, .mdsl | some _, .joined => .joined
  | some _, _ => .clear

section language
variable {L : Type} (compiler : Compiler L)

/-- The language in force in the command, from the user's. -/
def language (user : Option L) : Trail → Option L
  | .clear | .joined => user
  | .mdsl | .forgotten => some (compiler.named "c++")
  | .other => none

/-- The arguments behind which the languages are kept: the compiler does not wait for a value, and
is not behind its `--`, where the loop names a language, and the language that the trail means for
an input is the required one. -/
def Sound : Reading → Reading → Trail → Option L → List String → Prop
  | _, _, _, _, [] => True
  | reading, loop, trail, user, argument :: rest =>
    (trail.Names loop argument rest → reading = .plain) ∧
    (compiler.takes reading argument = true →
      compiler.languageOf ((trail.before loop argument rest).language compiler user) argument =
        (compiler.required (argument, compiler.languageOf user argument)).2) ∧
    Sound (reading.next compiler.takesValue argument) (loop.next optionConsumesNextArgument argument)
      (((trail.before loop argument rest).forget loop argument).choose
        (compiler.chosen reading argument))
      (compiler.behind reading user argument) rest

instance decidableSound [DecidableEq L] : ∀ reading loop trail user arguments,
    Decidable (Sound compiler reading loop trail user arguments)
  | _, _, _, _, [] => isTrue trivial
  | reading, loop, trail, user, argument :: rest =>
    have := decidableSound (reading.next compiler.takesValue argument)
      (loop.next optionConsumesNextArgument argument)
      (((trail.before loop argument rest).forget loop argument).choose
        (compiler.chosen reading argument))
      (compiler.behind reading user argument) rest
    inferInstanceAs (Decidable (_ ∧ _ ∧ _))

end language

end Trail

/-- The rest of the command, from how the loop reads on. -/
def Reading.command (loop : Reading) (active : Bool) (arguments : List String) : List String :=
  match loop with
  | .plain => directArguments arguments ⟨false, active⟩
  | .value _ => directArguments arguments ⟨true, active⟩
  | .input => arguments

/-- What the loop puts before an argument. -/
def injection (argument : String) : List String :=
  ["-x", if argument = "--" || hasMdslExtension argument then "c++" else "none"]

variable {argument : String} {rest arguments : List String} {loop reading : Reading}
  {trail : Trail}

theorem command_next (hne : argument ≠ "--") (active : Bool) :
    (Reading.plain.next optionConsumesNextArgument argument).command active rest =
      directArguments rest ⟨optionConsumesNextArgument argument, active⟩ := by
  unfold Reading.next
  rw [if_neg hne]
  cases optionConsumesNextArgument argument <;> rfl

theorem ne_of_plain {option : String} (hplain : startsWithDash argument = false)
    (hdash : startsWithDash option = true) : argument ≠ option := by
  rintro rfl
  rw [hplain] at hdash
  cases hdash

theorem direct_dash {active : Bool} (hdash : startsWithDash argument = true)
    (hne : argument ≠ "--") :
    directArguments (argument :: rest) ⟨false, active⟩ =
      argument :: directArguments rest
        ⟨optionConsumesNextArgument argument, if argument = "-x" then false else active⟩ := by
  simp [directArguments, hdash, hne]

theorem direct_plain (hplain : startsWithDash argument = false) :
    directArguments (argument :: rest) ⟨false, trail.active⟩ =
      (if trail.active = !hasMdslExtension argument then injection argument else []) ++ argument ::
        directArguments rest ⟨optionConsumesNextArgument argument, hasMdslExtension argument⟩ := by
  have hterminator := ne_of_plain hplain (show startsWithDash "--" = true by decide)
  have hlanguage := ne_of_plain hplain (show startsWithDash "-x" = true by decide)
  cases hmdsl : hasMdslExtension argument <;> cases trail.active <;>
    simp [directArguments, hplain, hmdsl, hterminator, hlanguage, injection]

theorem active_before (hplain : startsWithDash argument = false) :
    ((trail.before .plain argument rest).forget .plain argument).active =
      hasMdslExtension argument := by
  have hterminator := ne_of_plain hplain (show startsWithDash "--" = true by decide)
  have hlanguage := ne_of_plain hplain (show startsWithDash "-x" = true by decide)
  cases hmdsl : hasMdslExtension argument <;> cases trail <;>
    simp [Trail.before, Trail.forget, hterminator, hlanguage, hplain, hmdsl, Trail.behindMdsl,
      Trail.behindOther, Trail.active]

theorem active_forget :
    (trail.forget .plain argument).active = if argument = "-x" then false else trail.active := by
  unfold Trail.forget
  by_cases hlanguage : argument = "-x" <;> cases trail <;> simp [hlanguage, Trail.active]

/-- **One argument of the loop**: what it puts before the argument, and how it goes on. -/
theorem command_cons (loop : Reading) (trail : Trail) (argument : String) (rest : List String) :
    ∃ injected, loop.command trail.active (argument :: rest) = injected ++ argument ::
        (loop.next optionConsumesNextArgument argument).command
          ((trail.before loop argument rest).forget loop argument).active rest ∧
      (trail.Names loop argument rest ∧ injected = injection argument ∨
        ¬ trail.Names loop argument rest ∧ injected = []) := by
  cases loop with
  | value language => exact ⟨[], rfl, .inr ⟨fun h => Reading.noConfusion h.1, rfl⟩⟩
  | input => exact ⟨[], rfl, .inr ⟨fun h => Reading.noConfusion h.1, rfl⟩⟩
  | plain =>
  by_cases hterminator : argument = "--"
  · subst hterminator
    refine ⟨_, rfl, ?_⟩
    unfold Trail.Names
    rw [if_pos rfl, and_iff_right rfl]
    cases rest.any hasMdslExtension with
    | true => exact .inl ⟨rfl, rfl⟩
    | false => exact .inr ⟨Bool.false_ne_true, rfl⟩
  rw [command_next hterminator]
  unfold Trail.Names
  rw [if_neg hterminator, and_iff_right rfl]
  cases hdash : startsWithDash argument with
  | true =>
    refine ⟨[], ?_, .inr ⟨fun h => Bool.noConfusion h.1, rfl⟩⟩
    have hbefore : trail.before .plain argument rest = trail := by
      simp [Trail.before, hterminator, hdash]
    rw [hbefore, active_forget]
    exact direct_dash hdash hterminator
  | false =>
    rw [active_before hdash]
    refine ⟨_, direct_plain hdash, ?_⟩
    by_cases hactive : trail.active = !hasMdslExtension argument
    · exact .inl ⟨⟨rfl, hactive⟩, if_pos hactive⟩
    · exact .inr ⟨fun h => hactive h.2, if_neg hactive⟩

section compiler
variable {L : Type} {compiler : Compiler L} {language user : Option L}

theorem name_plain : startsWithDash (if argument = "--" || hasMdslExtension argument then "c++"
    else "none") = false := by
  split <;> decide

theorem not_takesValue (hplain : startsWithDash argument = false) :
    compiler.takesValue argument = false := by
  cases htakes : compiler.takesValue argument with
  | false => rfl
  | true =>
    rw [compiler.takes_dashed htakes] at hplain
    cases hplain

/-- Before an argument that the compiler reads afresh, the language is set. -/
theorem inputs_injection {cells : List String} :
    compiler.inputs .plain language (injection argument ++ cells) =
      compiler.inputs .plain (compiler.inForce (if argument = "--" || hasMdslExtension argument
        then "c++" else "none")) cells := by
  simp [injection, Compiler.inputs, Compiler.takes, Reading.next, compiler.takes_language,
    Compiler.behind, Compiler.chosen]

theorem inputs_length_le (reading : Reading) (language : Option L) (arguments : List String) :
    (compiler.inputs reading language arguments).length ≤ arguments.length := by
  induction arguments generalizing reading language with
  | nil => exact Nat.le_refl 0
  | cons argument rest ih =>
    unfold Compiler.inputs
    rw [length_append, length_cons]
    have hrest := ih (reading.next compiler.takesValue argument)
      (compiler.behind reading language argument)
    split <;> simp <;> omega

theorem inputs_behind (language : Option L) (arguments : List String) :
    (compiler.inputs .input language arguments).length = arguments.length := by
  induction arguments generalizing language with
  | nil => rfl
  | cons argument rest ih =>
    unfold Compiler.inputs
    rw [length_append, length_cons, Reading.next, ih]
    exact Nat.add_comm 1 rest.length

theorem inputs_cons :
    compiler.inputs reading language (argument :: rest) =
      (if compiler.takes reading argument then [(argument, compiler.languageOf language argument)]
        else []) ++
        compiler.inputs (reading.next compiler.takesValue argument)
          (compiler.behind reading language argument) rest :=
  rfl

theorem inputs_value {isLanguage : Bool} :
    compiler.inputs (.value isLanguage) language (argument :: rest) =
      compiler.inputs .plain (compiler.behind (.value isLanguage) language argument) rest :=
  rfl

/-- An argument that is no option, where the compiler reads it afresh. -/
theorem inputs_plain (hplain : startsWithDash argument = false) :
    compiler.inputs .plain language (argument :: rest) =
      (argument, compiler.languageOf language argument) ::
        compiler.inputs .plain (compiler.behind .plain language argument) rest := by
  have hterminator := ne_of_plain hplain (show startsWithDash "--" = true by decide)
  have htakes := @not_takesValue _ _ compiler hplain
  simp [Compiler.inputs, Compiler.takes, Reading.next, hterminator, htakes, hplain]

/-- A language that is named where the compiler waits for a value, or behind its `--`, gives more
inputs than the user has. -/
theorem inputs_lt (hreading : reading ≠ .plain) (hnames : trail.Names loop argument rest)
    {language' : Option L} {cells : List String} (hcells : rest.length ≤ cells.length)
    (hplain : ∀ before after, (compiler.inputs .plain before rest).length ≤
      (compiler.inputs .plain after cells).length) :
    (compiler.inputs reading language (argument :: rest)).length <
      (compiler.inputs reading language' (injection argument ++ argument :: cells)).length := by
  cases reading with
  | plain => exact absurd rfl hreading
  | input =>
    rw [inputs_behind, inputs_behind]
    simp [injection]
    omega
  | value isLanguage =>
    -- the option takes `-x`, and the name of the language is an input
    rw [inputs_value]
    show _ < (compiler.inputs (.value isLanguage) language' ("-x" :: _ :: argument :: cells)).length
    rw [inputs_value, inputs_plain name_plain, length_cons]
    by_cases hterminator : argument = "--"
    · have hrest := @inputs_length_le _ compiler .plain
        (compiler.behind (.value isLanguage) language argument) rest
      have hbehind : ∀ after, compiler.inputs .plain after (argument :: cells) =
          compiler.inputs .input after cells := by
        intro after
        subst hterminator
        simp [Compiler.inputs, Compiler.takes, Reading.next, Compiler.behind, Compiler.chosen,
          joinedLanguage]
      rw [hbehind, inputs_behind]
      omega
    · have hdash := hnames.2
      rw [if_neg hterminator] at hdash
      rw [inputs_plain hdash.1, length_cons]
      have hrest := hplain (compiler.behind (.value isLanguage) language argument)
      exact Nat.lt_succ_of_le (Nat.le_succ_of_le (hrest _))

theorem command_length (loop : Reading) (trail : Trail) (arguments : List String) :
    arguments.length ≤ (loop.command trail.active arguments).length := by
  induction arguments generalizing loop trail with
  | nil => exact Nat.zero_le _
  | cons argument rest ih =>
    obtain ⟨injected, heq, -⟩ := command_cons loop trail argument rest
    rw [heq, length_append, length_cons, length_cons]
    have hrest := ih (loop.next optionConsumesNextArgument argument)
      ((trail.before loop argument rest).forget loop argument)
    omega

/-- **No input is lost** in the command, whatever the loop puts into it. -/
theorem inputs_le (reading loop : Reading) (trail : Trail) (before after : Option L)
    (arguments : List String) : (compiler.inputs reading before arguments).length ≤
      (compiler.inputs reading after (loop.command trail.active arguments)).length := by
  induction arguments generalizing reading loop trail before after with
  | nil => exact Nat.zero_le _
  | cons argument rest ih =>
    obtain ⟨injected, heq, hinjected⟩ := command_cons loop trail argument rest
    rw [heq]
    have hsame : ∀ after, (compiler.inputs reading before (argument :: rest)).length ≤
        (compiler.inputs reading after (argument ::
          (loop.next optionConsumesNextArgument argument).command
            ((trail.before loop argument rest).forget loop argument).active rest)).length := by
      intro after
      unfold Compiler.inputs
      rw [length_append, length_append]
      refine Nat.add_le_add ?_ (ih _ _ _ _ _)
      split <;> exact Nat.le_refl _
    rcases hinjected with ⟨hnames, rfl⟩ | ⟨-, rfl⟩
    · by_cases hreading : reading = .plain
      · subst hreading
        rw [inputs_injection]
        exact hsame _
      · exact Nat.le_of_lt
          (inputs_lt hreading hnames (command_length _ _ _) fun _ _ => ih _ _ _ _ _)
    · exact hsame after

theorem choose_language {name : Option String} {old : Option L}
    (h : old = trail.language compiler user) :
    (match name with | some name => compiler.inForce name | none => old) =
      (trail.choose name).language compiler
        (match name with | some name => compiler.inForce name | none => user) := by
  cases name with
  | none => exact h
  | some name => cases trail <;> rfl

theorem forget_language :
    (trail.forget loop argument).language compiler user = trail.language compiler user := by
  unfold Trail.forget
  split
  · cases trail <;> rfl
  · rfl

theorem choose_active (name : Option String) : (trail.choose name).active = trail.active := by
  cases name <;> cases trail <;> rfl

theorem before_of_names (h : trail.Names loop argument rest) :
    (trail.before loop argument rest).language compiler user =
      compiler.inForce (if argument = "--" || hasMdslExtension argument then "c++" else "none") := by
  obtain ⟨rfl, h⟩ := h
  unfold Trail.before
  by_cases hterminator : argument = "--"
  · rw [if_pos hterminator] at h
    simp [hterminator, h, Trail.language, Compiler.inForce]
  · rw [if_neg hterminator] at h
    obtain ⟨hplain, hactive⟩ := h
    cases hmdsl : hasMdslExtension argument <;> rw [hmdsl] at hactive <;>
      cases trail <;> cases hactive <;>
      simp [hterminator, hplain, Trail.behindMdsl, Trail.behindOther, Trail.language,
        Compiler.inForce]

theorem before_of_not_names (h : ¬ trail.Names loop argument rest) :
    (trail.before loop argument rest).language compiler user = trail.language compiler user := by
  unfold Trail.before
  unfold Trail.Names at h
  split
  · rfl
  · rename_i hloop
    rw [not_not] at hloop
    rw [and_iff_right hloop] at h
    split
    · rename_i hterminator
      rw [if_pos hterminator] at h
      rw [if_neg h]
    · rename_i hterminator
      rw [if_neg hterminator] at h
      split
      · rfl
      · rename_i hplain
        have hactive : ¬ trail.active = !hasMdslExtension argument := fun hactive =>
          h ⟨Bool.of_not_eq_true hplain, hactive⟩
        cases hmdsl : hasMdslExtension argument <;> rw [hmdsl] at hactive <;> cases trail <;>
          first | rfl | exact absurd rfl hactive

/-- **The languages of the command**, from the same reading of the compiler: they are the required
ones exactly if the arguments are sound. -/
theorem agree_command (reading loop : Reading) (trail : Trail) (user : Option L)
    (arguments : List String) :
    compiler.inputs reading (trail.language compiler user) (loop.command trail.active arguments) =
        (compiler.inputs reading user arguments).map compiler.required ↔
      Trail.Sound compiler reading loop trail user arguments := by
  induction arguments generalizing reading loop trail user with
  | nil =>
    refine iff_of_true ?_ trivial
    cases loop <;> rfl
  | cons argument rest ih =>
    obtain ⟨injected, heq, hinjected⟩ := command_cons loop trail argument rest
    rw [heq]
    unfold Trail.Sound
    generalize hcells : (loop.next optionConsumesNextArgument argument).command
      ((trail.before loop argument rest).forget loop argument).active rest = cells
    -- from the argument on, in the language that is then in force
    have hsame : compiler.inputs reading ((trail.before loop argument rest).language compiler user)
          (argument :: cells) =
          (compiler.inputs reading user (argument :: rest)).map compiler.required ↔
        (compiler.takes reading argument = true →
          compiler.languageOf ((trail.before loop argument rest).language compiler user) argument =
            (compiler.required (argument, compiler.languageOf user argument)).2) ∧
          Trail.Sound compiler (reading.next compiler.takesValue argument)
            (loop.next optionConsumesNextArgument argument)
            (((trail.before loop argument rest).forget loop argument).choose
              (compiler.chosen reading argument))
            (compiler.behind reading user argument) rest := by
      rw [← ih, choose_active, hcells]
      have hbehind : compiler.behind reading
          ((trail.before loop argument rest).language compiler user) argument =
            (((trail.before loop argument rest).forget loop argument).choose
              (compiler.chosen reading argument)).language compiler
                (compiler.behind reading user argument) :=
        choose_language forget_language.symm
      rw [← hbehind, inputs_cons, inputs_cons]
      cases compiler.takes reading argument with
      | false => simp
      | true =>
        rw [if_pos rfl, if_pos rfl, List.singleton_append, List.singleton_append, List.map_cons,
          List.cons.injEq, imp_iff_right rfl]
        refine and_congr_left' (Prod.ext_iff.trans ?_)
        exact and_iff_right rfl
    rcases hinjected with ⟨hnames, rfl⟩ | ⟨hnames, rfl⟩
    · by_cases hreading : reading = .plain
      · subst hreading
        rw [inputs_injection, ← before_of_names hnames, hsame]
        exact (and_iff_right fun _ => rfl).symm
      · refine iff_of_false (fun h => ?_) fun h => hreading (h.1 hnames)
        have hlt := @inputs_lt _ _ _ _ _ _ compiler user hreading hnames
          (trail.language compiler user) cells (hcells ▸ command_length _ _ _)
          fun _ _ => hcells ▸ inputs_le _ _ _ _ _ _
        rw [h, List.length_map] at hlt
        exact Nat.lt_irrefl _ hlt
    · rw [List.nil_append, ← before_of_not_names hnames, hsame]
      exact (and_iff_right fun h => absurd h hnames).symm

end compiler

/-- The command holds the user's arguments once and in order, with languages between them. -/
inductive Injects : List String → List String → Prop
  | nil : Injects [] []
  | keep {argument : String} {user command : List String} (h : Injects user command) :
      Injects (argument :: user) (argument :: command)
  | language {value : String} {user command : List String}
      (hvalue : value = "c++" ∨ value = "none") (h : Injects user command) :
      Injects user ("-x" :: value :: command)

theorem command_injects (loop : Reading) (trail : Trail) (arguments : List String) :
    Injects arguments (loop.command trail.active arguments) := by
  induction arguments generalizing loop trail with
  | nil => cases loop <;> exact .nil
  | cons argument rest ih =>
    obtain ⟨injected, heq, hinjected⟩ := command_cons loop trail argument rest
    rw [heq]
    have hrest := @Injects.keep argument _ _
      (ih (loop.next optionConsumesNextArgument argument)
        ((trail.before loop argument rest).forget loop argument))
    rcases hinjected with ⟨-, rfl⟩ | ⟨-, rfl⟩
    · refine hrest.language ?_
      split
      · exact Or.inl rfl
      · exact Or.inr rfl
    · exact hrest

/-- **Direct compilation** hands on the user's arguments, and the compiler sees the user's inputs,
each in its language, exactly when the arguments are sound. -/
theorem languages_kept_iff {L : Type} (compiler : Compiler L) (wrapper : WrapperArguments)
    (toolchain : CompilerToolchain) (hgnu : toolchain.flavor = .clangGnu) :
    ∃ command, buildDirectCommand wrapper toolchain = toolchain.compiler ::
        (if wrapper.saveTemps then ["-save-temps=obj"] else []) ++ command ∧
      Injects wrapper.compilerArguments command ∧
      (compiler.inputs .plain none (buildDirectCommand wrapper toolchain).tail =
          (compiler.inputs .plain none wrapper.compilerArguments).map compiler.required ↔
        Trail.Sound compiler .plain .plain .clear none wrapper.compilerArguments) := by
  have hbuilt : buildDirectCommand wrapper toolchain = toolchain.compiler ::
      (if wrapper.saveTemps then ["-save-temps=obj"] else []) ++
        directArguments wrapper.compilerArguments {} := by
    unfold buildDirectCommand
    rw [hgnu]
  have hsaved : compiler.inputs .plain none
        ("-save-temps=obj" :: directArguments wrapper.compilerArguments {}) =
      compiler.inputs .plain none (directArguments wrapper.compilerArguments {}) := by
    simp [Compiler.inputs, Compiler.takes, Reading.next, Compiler.behind, Compiler.chosen,
      compiler.takes_saveTemps, startsWithDash, joinedLanguage]
  refine ⟨_, hbuilt, command_injects .plain .clear _, ?_⟩
  rw [← agree_command, hbuilt]
  cases wrapper.saveTemps with
  | true => exact iff_of_eq (congrArg (· = _) hsaved)
  | false => exact Iff.rfl

/-- Some options of clang that take a value. -/
def clangOptions : List String :=
  ["-o", "-I", "-L", "-D", "-x", "-MF", "-MJ", "-T", "-z", "-F", "-rpath"]

/-- Clang, with these options and its languages by extension. -/
def clang : Compiler String where
  takesValue := clangOptions.contains
  named := id
  byExtension input :=
    let ends (extension : String) := extension.toList.isSuffixOf input.toList
    if ends ".c" then "c" else if ends ".cpp" then "c++" else "object"
  takes_language := by decide
  takes_dashed h := by
    have hall : ∀ option ∈ clangOptions, startsWithDash option = true := by decide
    exact hall _ (List.contains_iff_mem.1 h)
  takes_saveTemps := by decide

/-- An option with a value that the loop's table does not have. -/
example : ¬ Trail.Sound clang .plain .plain .clear none ["a.mdsl", "-MJ", "db.json"] := by decide

/-- A `.mdsl` input between two C++ inputs keeps them. -/
theorem languages_kept_mixed :
    clang.inputs .plain none
        (buildDirectCommand ⟨true, ["a.cpp", "-o", "x", "b.mdsl", "c.cpp"]⟩
          ⟨.clangGnu, "clang++"⟩).tail =
      [("a.cpp", "c++"), ("b.mdsl", "c++"), ("c.cpp", "c++")] := by
  obtain ⟨-, -, -, hiff⟩ := languages_kept_iff clang
    ⟨true, ["a.cpp", "-o", "x", "b.mdsl", "c.cpp"]⟩ ⟨.clangGnu, "clang++"⟩ rfl
  exact (hiff.2 (by decide)).trans (by decide)

/-- The C++ input behind a `.mdsl` input loses the language that it was given. -/
theorem named_language_lost :
    clang.inputs .plain none
        (buildDirectCommand ⟨false, ["-x", "c", "a.mdsl", "b.cpp"]⟩
          ⟨.clangGnu, "clang++"⟩).tail ≠
      (clang.inputs .plain none ["-x", "c", "a.mdsl", "b.cpp"]).map clang.required := by
  decide

end Matcore.Driver
