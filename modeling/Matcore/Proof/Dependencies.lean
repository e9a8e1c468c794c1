import Matcore.Driver.Dependencies

/-!
# Merged dependency files

What the writer escapes is what the reader takes off again, character by character, so a merged
file is read back as the paths that the merge keeps.
-/

namespace Matcore.Driver

open Support (Bytes)
open List (mem_cons not_mem_nil append_assoc flatMap_cons eraseDupsBy any any_map)

variable {path rest text : Bytes} {paths : List Bytes} {s : Scan} {c : UInt8}

abbrev OneLine (path : Bytes) : Prop := ∀ c ∈ path, c ≠ 10 ∧ c ≠ 13

theorem escaped_cases (hc : c ≠ 10 ∧ c ≠ 13) :
    c = 36 ∨ (c = 32 ∨ c = 9 ∨ c = 35 ∨ c = 58 ∨ c = 92) ∨
      (c ≠ 36 ∧ c ≠ 92 ∧ c ≠ 58 ∧ c ≠ 32 ∧ c ≠ 9 ∧ c ≠ 35) ∧ escapeCharacter c = [c] := by
  by_cases h : c ∈ [36, 92, 58, 32, 9, 35]
  · simp only [mem_cons, not_mem_nil, or_false] at h
    tauto
  · simp only [mem_cons, not_mem_nil, or_false, not_or] at h
    refine .inr (.inr ⟨h, ?_⟩)
    simp [escapeCharacter, h]

theorem run_character (hc : c ≠ 10 ∧ c ≠ 13) :
    Scan.run (escapeCharacter c ++ rest) s = Scan.run rest (s.put c) := by
  rcases escaped_cases hc with rfl | (rfl | rfl | rfl | rfl | rfl) | ⟨h, hself⟩
  any_goals rfl
  rw [hself]
  simp [Scan.run, h, hc]

theorem separator_character (hc : c ≠ 10 ∧ c ≠ 13) :
    behindSeparator false (escapeCharacter c ++ rest) = behindSeparator false rest := by
  rcases escaped_cases hc with rfl | (rfl | rfl | rfl | rfl | rfl) | ⟨h, hself⟩
  any_goals rfl
  rw [hself]
  simp [behindSeparator, h, hc]

theorem run_escaped (h : OneLine path) :
    Scan.run (escapeMakePath path ++ rest) s =
      Scan.run rest { s with token := s.token ++ path } := by
  induction path generalizing s with
  | nil => rw [List.append_nil]; rfl
  | cons c path ih =>
    obtain ⟨hc, hpath⟩ := List.forall_mem_cons.1 h
    rw [escapeMakePath, flatMap_cons, append_assoc, run_character hc]
    rw [← escapeMakePath, ih hpath]
    simp [Scan.put]

theorem separator_escaped (h : OneLine path) :
    behindSeparator false (escapeMakePath path ++ rest) = behindSeparator false rest := by
  induction path with
  | nil => rfl
  | cons c path ih =>
    obtain ⟨hc, hpath⟩ := List.forall_mem_cons.1 h
    rw [escapeMakePath, flatMap_cons, append_assoc, separator_character hc]
    exact ih hpath

/-- What the reader takes for a path. -/
def Good (path : Bytes) : Prop := path ≠ [] ∧ pathFromUtf8 path = .ok path

theorem eq_of_pathFromUtf8 {value : Bytes} (h : pathFromUtf8 value = .ok path) : value = path := by
  unfold pathFromUtf8 at h
  split at h
  · cases h
  · split at h <;> cases h
    rfl

theorem Good.argument (h : Good path) : pathArgument path = path := by
  have hread := h.2
  unfold pathFromUtf8 at hread
  unfold pathArgument
  split at hread
  · cases hread
  · split at hread
    · rfl
    · cases hread

section

variable (h : ∀ path ∈ s.paths, Good path)

include h

theorem good_finishToken :
    ∀ path ∈ s.finishToken.paths, Good path := by
  unfold Scan.finishToken
  split
  · exact h
  · next hne =>
    cases hread : pathFromUtf8 s.token with
    | error message => exact h
    | ok path =>
      intro p hp
      rcases List.mem_append.1 hp with hp | hp
      · exact h p hp
      · rw [List.mem_singleton.1 hp]
        cases eq_of_pathFromUtf8 hread
        exact ⟨hne, hread⟩

theorem good_result (hresult : s.result = .ok paths) :
    ∀ path ∈ paths, Good path := by
  unfold Scan.result at hresult
  split at hresult
  · cases hresult
  · split at hresult <;> cases hresult
    exact h

theorem good_run (hrun : Scan.run text s = .ok paths) :
    ∀ path ∈ paths, Good path := by
  fun_induction Scan.run text s with
  | case1 s => exact good_result (good_finishToken h) hrun
  | case2 => cases hrun
  | case3 rest s ih | case4 rest s ih => exact ih h hrun
  | case5 next rest s _ _ ih | case6 rest s ih => exact ih h hrun
  | case7 _ rest s _ _ _ _ _ _ ih => exact ih (good_finishToken h) hrun
  | case8 _ _ s => exact good_result (good_finishToken h) hrun
  | case9 character rest s _ _ _ _ _ _ _ ih => exact ih h hrun

end

/-- The entry of a path in the file. -/
def entry (path : Bytes) : Bytes := [32, 92, 10, 32, 32] ++ escapeMakePath path

theorem finishToken_token : s.finishToken.token = [] := by
  unfold Scan.finishToken
  split
  · assumption
  · split <;> rfl

theorem finishToken_good (h : Good path) :
    ({ s with token := path } : Scan).finishToken =
      { s with paths := s.paths ++ [path], token := [] } := by
  unfold Scan.finishToken
  rw [if_neg h.1, h.2]

/-- The loop over the paths, by induction over the entries of the file. -/
theorem run_entries {α : Type} {entry : α → Bytes} {path : α → Bytes} {l : List α}
    (h : ∀ a ∈ l, Good (path a) ∧ ∀ (s : Scan) (rest : Bytes), Scan.run (entry a ++ rest) s =
      Scan.run rest { s.finishToken with token := path a }) :
    Scan.run (l.flatMap entry ++ [10]) s =
      ({ s.finishToken with paths := s.finishToken.paths ++ l.map path } : Scan).result := by
  induction l generalizing s with
  | nil => simp [Scan.run]
  | cons a l ih =>
    obtain ⟨⟨hgood, hentry⟩, hrest⟩ := List.forall_mem_cons.1 h
    rw [flatMap_cons, append_assoc, hentry, ih hrest, finishToken_good hgood, append_assoc]
    simp [finishToken_token]

theorem finished : s.finishToken.finishToken = s.finishToken := if_pos finishToken_token

theorem run_entry (h : OneLine path) :
    Scan.run (entry path ++ rest) s = Scan.run rest { s.finishToken with token := path } := by
  have hentry : Scan.run (entry path ++ rest) s =
      Scan.run (escapeMakePath path ++ rest) s.finishToken.finishToken.finishToken := rfl
  rw [hentry, finished, finished, run_escaped h, finishToken_token, List.nil_append]

variable {fs : Paths} {excludedPaths : List Bytes}

namespace Paths

/-- The path is, as an absolute path, one of the excluded ones. -/
def Excluded (fs : Paths) (excludedPaths : List Bytes) (path : Bytes) : Bool :=
  (fs.identity path).any (fs.generated excludedPaths)

/-- The second path is the first one, as absolute paths. -/
def repeats (fs : Paths) (path earlier : Bytes) : Bool :=
  (fs.identity path).any fun identity => (fs.identity earlier).any (fs.same · identity)

def kept (fs : Paths) (excludedPaths paths : List Bytes) : List Bytes :=
  (paths.filter fun path => !fs.Excluded excludedPaths path).eraseDupsBy fs.repeats

theorem collect_eq {found after : List Bytes × List Bytes}
    (h : fs.collect excludedPaths paths found = some after)
    (hfound : found.1.map some = found.2.map fs.identity) :
    after.1.map some = after.2.map fs.identity ∧ after.2 = eraseDupsBy.loop fs.repeats
      (paths.filter fun path => !fs.Excluded excludedPaths path) found.2.reverse := by
  induction paths generalizing found with
  | nil =>
    cases h
    exact ⟨hfound, (List.reverse_reverse _).symm⟩
  | cons path paths ih =>
    obtain ⟨identities, dependencies⟩ := found
    obtain ⟨identity, hidentity, hrest⟩ := Option.bind_eq_some_iff.1 h
    have hexcluded : fs.Excluded excludedPaths path = fs.generated excludedPaths identity := by
      rw [Excluded, hidentity]
      rfl
    have hrepeats : dependencies.reverse.any (fs.repeats path) =
        identities.any (fs.same · identity) := by
      have hmap := congrArg (any · (Option.any (fs.same · identity))) hfound
      have hpath : fs.repeats path = Option.any (fs.same · identity) ∘ fs.identity := by
        funext earlier
        rw [repeats, hidentity]
        rfl
      rw [any_map, any_map] at hmap
      rw [List.any_reverse, hpath]
      exact hmap.symm
    cases hgenerated : fs.generated excludedPaths identity with
    | true =>
      rw [hgenerated, Bool.true_or, if_pos rfl] at hrest
      rw [List.filter_cons_of_neg (by rw [hexcluded, hgenerated]; decide)]
      exact ih hrest hfound
    | false =>
      rw [List.filter_cons_of_pos (by rw [hexcluded, hgenerated]; rfl), eraseDupsBy.loop,
        hrepeats]
      rw [hgenerated, Bool.false_or] at hrest
      cases hany : identities.any (fs.same · identity) with
      | true =>
        rw [if_pos hany] at hrest
        exact ih hrest hfound
      | false =>
        rw [if_neg (by rw [hany]; decide)] at hrest
        have hnext := ih hrest (by simp [hidentity] at hfound ⊢; exact hfound)
        simpa using hnext

theorem mem_of_kept (h : path ∈ eraseDupsBy.loop fs.repeats paths found) :
    path ∈ paths ∨ path ∈ found := by
  induction paths generalizing found with
  | nil => exact .inr (List.mem_reverse.1 h)
  | cons first paths ih =>
    unfold eraseDupsBy.loop at h
    split at h <;> have := ih h <;> grind

theorem collect_append (first second : List Bytes) (found : List Bytes × List Bytes) :
    fs.collect excludedPaths (first ++ second) found =
      fs.collect excludedPaths first found >>= fs.collect excludedPaths second := by
  induction first generalizing found with
  | nil => rfl
  | cons path paths ih =>
    simp only [List.cons_append, collect, ih]
    cases fs.identity path with
    | none => rfl
    | some identity => exact (apply_ite (· >>= _) _ _ _).symm

/-- The reader accepts every file, and gives the list of its paths. -/
abbrev Accepted : List (Except String Bytes) → List (List Bytes) → Prop :=
  List.Forall₂ fun file paths => readMakeDependencyPaths file = .ok paths

theorem collect_files (hfiles : Accepted files lists) (found : List Bytes × List Bytes) :
    files.foldlM (fun found file => do
      fs.collect excludedPaths (← (readMakeDependencyPaths file).toOption) found) found =
      fs.collect excludedPaths lists.flatten found := by
  induction hfiles generalizing found with
  | nil => rfl
  | cons hfile _ ih =>
    rw [List.foldlM_cons, List.flatten_cons, collect_append, hfile]
    exact bind_congr ih

theorem good_of_files (hfiles : Accepted files lists) :
    ∀ path ∈ lists.flatten, Good path := by
  induction hfiles with
  | nil => exact fun _ h => absurd h not_mem_nil
  | @cons file paths _ _ hfile _ ih =>
    refine List.forall_mem_append.2 ⟨?_, ih⟩
    obtain ⟨contents, -, hread⟩ := Except.bind_eq_ok hfile
    split at hread
    · cases hread
    · exact good_run (fun _ h => absurd h not_mem_nil) hread

/-- **The merged file** is read back as the paths that are kept; the reader refuses it when there
are none. -/
theorem merged_read {target : Bytes} (hfiles : Accepted files lists)
    (htarget : OneLine target) (hlines : ∀ path ∈ lists.flatten, OneLine path)
    (hwritten : fs.mergeDependencyFiles excludedPaths files target = some text) :
    readMakeDependencyPaths (.ok text) =
      if fs.kept excludedPaths lists.flatten = [] then
        .error "dependency scan output contains no input files"
      else .ok (fs.kept excludedPaths lists.flatten) := by
  obtain ⟨⟨identities, dependencies⟩, hcollect, htext⟩ := Option.bind_eq_some_iff.1 hwritten
  rw [collect_files hfiles] at hcollect
  obtain ⟨-, hkept : dependencies = fs.kept excludedPaths lists.flatten⟩ := collect_eq hcollect rfl
  have hall : ∀ path ∈ dependencies, Good path ∧ OneLine path := by
    intro path hpath
    rw [hkept] at hpath
    have hmem : path ∈ lists.flatten :=
      List.mem_of_mem_filter ((mem_of_kept hpath).resolve_right not_mem_nil)
    exact ⟨good_of_files hfiles path hmem, hlines path hmem⟩
  have hentries : (dependencies.flatMap fun dependency =>
      [32, 92, 10, 32, 32] ++ escapeMakePath (pathArgument dependency)) =
      dependencies.flatMap entry :=
    List.flatMap_congr fun path hpath => by rw [(hall path hpath).1.argument]; rfl
  have hseparator : behindSeparator false ([58] ++ (dependencies.flatMap entry ++ [10])) =
      some (dependencies.flatMap entry ++ [10]) := by
    cases dependencies <;> rfl
  have hargument : OneLine (pathArgument target) := by
    unfold pathArgument
    split
    · exact htarget
    · exact nofun
  cases htext
  rw [hentries, append_assoc, append_assoc]
  unfold readMakeDependencyPaths
  dsimp only [bind, Except.bind]
  rw [separator_escaped hargument, hseparator]
  dsimp only
  have hrun := @run_entries {} Bytes entry id dependencies fun path h =>
    ⟨(hall path h).1, fun _ _ => run_entry (hall path h).2⟩
  rw [hrun, List.map_id, ← hkept]
  rfl

def bytes (text : String) : Bytes := text.toList.map Char.toUInt8

/-- Absolute paths in the directory `/w`. -/
def inW : Paths where
  isRelative path := path.head? ≠ some 47
  absolute path := some (bytes "/w/" ++ path)
  same := (· == ·)

/-- One path is excluded, and another one is there twice. -/
theorem merged_read_twoFiles : ∃ text,
    inW.mergeDependencyFiles [bytes "k"]
        [.ok (bytes "a: /w/k x\\ y"), .ok (bytes "b: z$$ /w/x\\ y")] (bytes "o") = some text ∧
      readMakeDependencyPaths (.ok text) = .ok [bytes "x y", bytes "z$"] := by
  have hfiles : Accepted
      [.ok (bytes "a: /w/k x\\ y"), .ok (bytes "b: z$$ /w/x\\ y")]
      [[bytes "/w/k", bytes "x y"], [bytes "z$", bytes "/w/x y"]] := .cons rfl (.cons rfl .nil)
  obtain ⟨text, hwritten⟩ : ∃ text, inW.mergeDependencyFiles [bytes "k"]
      [.ok (bytes "a: /w/k x\\ y"), .ok (bytes "b: z$$ /w/x\\ y")] (bytes "o") = some text :=
    ⟨_, rfl⟩
  have hread := merged_read hfiles (by decide +kernel) (by decide +kernel) hwritten
  exact ⟨text, hwritten, hread.trans rfl⟩

/-- A merged file without paths is refused. -/
theorem merged_refused : ∃ text,
    inW.mergeDependencyFiles [bytes "b"] [.ok (bytes "a: b")] (bytes "a") = some text ∧
      readMakeDependencyPaths (.ok (bytes "a: b")) = .ok [bytes "b"] ∧
      readMakeDependencyPaths (.ok text) =
        .error "dependency scan output contains no input files" :=
  ⟨_, rfl, rfl, rfl⟩

end Paths

end Matcore.Driver
