/-
  ClientGen.Proofs.FileCall

  Files that are asked for by their paths.  A file is there from the first call for it on,
  and a later call gets the same file when its path has the same normal form, whatever was
  asked for in between.  Normal forms are made of segments that a walk enters, and a path
  may be brought to normal form before more is put behind it; `files_by_normal_form` puts
  the two together.
-/
import ClientGen.Proofs.FilePath
import ClientGen.Proofs.Map
import ClientGen.TypeScript.SourceFile

namespace ClientGen

open TypeScript

/-! ## Normal forms of joined paths -/

namespace FilePath

/-- The walk behind a directory begins where the walk to it ends. -/
theorem normalize_append (directory path : String) :
    normalize (normalize directory ++ "/" ++ path) = normalize (directory ++ "/" ++ path) := by
  have hbelow (front : String) : normalize (front ++ "/" ++ path) = "/".intercalate
      ((Text.splitOn isSlash path).foldl enter (normalSegments front).reverse).reverse := by
    rw [normalize_eq, String.append_assoc, normalSegments_below]
  rw [hbelow, hbelow, normalSegments_normalize]

end FilePath

/-! ## Calls -/

/-- A call for the file at a path, and what is done to the file that it gets. -/
structure FileCall where
  path : String
  change : SourceFile → SourceFile

/-- The normal form of the path for which a call is made. -/
def FileCall.file (c : FileCall) : String := FilePath.normalize c.path

/-- The calls for a file. -/
def callsTo (file : String) (cs : List FileCall) : List FileCall := cs.filter (·.file = file)

/-- A file to which calls have done what they do, in turn. -/
def TypeScript.SourceFile.changedBy (f : SourceFile) (cs : List FileCall) : SourceFile :=
  cs.foldl (fun f c => c.change f) f

namespace TypeScript.Project

variable {p : Project} {cs : List FileCall} {file path other : String} {f : SourceFile}

/-- The project after a call. -/
def afterCall (p : Project) (c : FileCall) : Project := p.update c.path c.change

/-- The project after calls. -/
def afterCalls (p : Project) (cs : List FileCall) : Project := cs.foldl afterCall p

/-- A call changes its own file, which is empty at first, and no other. -/
theorem get?_afterCall (p : Project) (c : FileCall) :
    (p.afterCall c).get? file =
      if c.file = file then some (c.change ((p.get? file).getD {})) else p.get? file := by
  unfold afterCall update
  rw [SortedMap.get?_alter]
  change (if file = c.file then some (c.change ((p.get? c.file).getD {})) else p.get? file) = _
  by_cases h : file = c.file
  · subst h
    rfl
  · rw [if_neg h, if_neg (Ne.symm h)]

/-- The calls for other files do not matter for a file. -/
theorem get?_afterCalls (p : Project) (cs : List FileCall) :
    (p.afterCalls cs).get? file =
      if callsTo file cs = [] then p.get? file
      else some (((p.get? file).getD {}).changedBy (callsTo file cs)) := by
  unfold afterCalls
  induction cs generalizing p with
  | nil => rfl
  | cons c rest ih =>
    rw [List.foldl_cons, ih, get?_afterCall]
    by_cases hc : c.file = file
    · have hcons : callsTo file (c :: rest) = c :: callsTo file rest := by
        simp [callsTo, hc]
      rw [if_pos hc, hcons, if_neg (List.cons_ne_nil _ _), Option.getD_some]
      -- the file is there from now on, whether or not there are more calls for it
      by_cases hrest : callsTo file rest = []
      · rw [if_pos hrest, hrest]
        rfl
      · rw [if_neg hrest]
        rfl
    · have hcons : callsTo file (c :: rest) = callsTo file rest := by
        simp [callsTo, hc]
      rw [if_neg hc, hcons]

/-- A project that calls have made has the files that they asked for. -/
theorem get?_afterCalls_empty :
    (afterCalls {} cs).get? file = some f ↔
      callsTo file cs ≠ [] ∧ SourceFile.changedBy {} (callsTo file cs) = f := by
  rw [get?_afterCalls]
  by_cases h : callsTo file cs = []
  · simp [h]
  · rw [if_neg h, SortedMap.get?_empty, Option.getD_none, Option.some.injEq]
    exact (and_iff_right h).symm

theorem mem_keys_afterCalls_empty :
    file ∈ (afterCalls {} cs).keys ↔ ∃ c ∈ cs, c.file = file := by
  rw [SortedMap.mem_keys_iff]
  simp only [get?_afterCalls_empty, exists_and_left, exists_eq', and_true]
  simp [callsTo, List.filter_eq_nil_iff]

/-! ## The same file -/

/-- Whether two paths lead to one file: whatever is done to the file at one of them is found at the
    other. -/
def SameFile (p : Project) (path other : String) : Prop :=
  ∀ change, (p.update path change).file? other = (p.update path change).file? path

theorem file?_update (p : Project) (path other : String) (change : SourceFile → SourceFile) :
    (p.update path change).file? other =
      if FilePath.normalize path = FilePath.normalize other then
        some (change ((p.file? other).getD {}))
      else p.file? other :=
  get?_afterCall p ⟨path, change⟩

theorem sameFile_iff (p : Project) (path other : String) :
    p.SameFile path other ↔ FilePath.normalize path = FilePath.normalize other := by
  constructor
  · intro h
    by_contra hne
    -- what is at the other path would have to be whatever is put at this one
    have hany (f : SourceFile) : p.file? other = some f := by
      have hput := h fun _ => f
      rwa [file?_update, file?_update, if_neg hne, if_pos rfl] at hput
    have hempty := hany {}
    rw [hany { declarations := [default] }] at hempty
    cases hempty
  · intro h change
    rw [file?, file?, h]

end TypeScript.Project

open FilePath in
/-- Normal forms are made of segments that a walk enters, they are their own normal forms, and more
    can be put behind them instead of the path.  After any calls there is one file for each normal
    form that was asked for, to which exactly the calls with that form were made; and two paths lead
    to the same file just when they have the same normal form. -/
theorem files_by_normal_form :
    (∀ path, IsNormal (normalize path)) ∧
    (∀ path, normalize (normalize path) = normalize path) ∧
    (∀ path other, normalize (path ++ "/" ++ other) = normalize (normalize path ++ "/" ++ other)) ∧
    ∀ cs : List FileCall,
      (∀ file, file ∈ (Project.afterCalls {} cs).keys ↔ ∃ c ∈ cs, c.file = file) ∧
      (∀ path f, (Project.afterCalls {} cs).file? path = some f ↔
        callsTo (normalize path) cs ≠ [] ∧
          SourceFile.changedBy {} (callsTo (normalize path) cs) = f) ∧
      ∀ path other, (Project.afterCalls {} cs).SameFile path other ↔
        normalize path = normalize other :=
  ⟨fun _ => isNormal_normalize, fun _ => normalize_normalize,
    fun path other => (normalize_append path other).symm, fun _ =>
      ⟨fun _ => Project.mem_keys_afterCalls_empty, fun _ _ => Project.get?_afterCalls_empty,
        fun _ _ => Project.sameFile_iff _ _ _⟩⟩

end ClientGen
