import Scftp.ConfigurationTool.Rounds
import Scftp.Lib.FileTree

set_option autoImplicit false

/- The two strings `update` asks for. The name keeps its newline, and the root
that was looked up is cut once more before it is stored. -/
namespace Scftp.ConfigurationTool

open CString Machine Stdin FileTree

/-- The directories that paths open. What they are is left open; a slash behind a
path makes no difference, and no path at all opens nothing. -/
structure Folders (Place : Type) where
  place : Bytes → Option Place
  unnamed : place [] = none
  slashed : ∀ path, path ≠ [] → place (path ++ [slash]) = place path

def Env.within {Place : Type} (folders : Folders Place) (env : Env) : Env :=
  { env with opendir := fun path => (folders.place path).isSome }

def treeFolders (tree : FileTree) : Folders Location where
  place path := (tree.resolve path).filter fun location => tree.nodes location = some .directory
  unnamed := rfl
  slashed path named := by
    have same : tree.resolve (path ++ [slash]) = tree.resolve path := by
      rw [resolve_append path [] named]
      exact Option.bind_fun_some _
    rw [same]

theorem treeFolders_opendir (tree : FileTree) (path : Bytes) :
    ((treeFolders tree).place path).isSome = tree.opendir path := by
  rw [Bool.eq_iff_iff, opendir, decide_eq_true_iff, lookup, Option.isSome_iff_exists,
    Option.bind_eq_some_iff]
  simp only [treeFolders, Option.filter_eq_some_iff, decide_eq_true_eq]

/-- The same path, up to one slash at the end. -/
def SameUpToSlash (left right : Bytes) : Prop :=
  left = right ∨ left ++ [slash] = right ∨ left = right ++ [slash]

instance (left right : Bytes) : Decidable (SameUpToSlash left right) := instDecidableOr

theorem cut_root_iff {Place : Type} (folders : Folders Place) (path : Bytes) (nonempty : path ≠ [])
    (opens : (folders.place path).isSome = true) :
    SameUpToSlash path.dropLast path ∧ folders.place path.dropLast = folders.place path ↔
      ∃ front, front ≠ [] ∧ path = front ++ [slash] := by
  have lengths : path.dropLast.length = path.length - 1 := List.length_dropLast
  have positive := List.length_pos_iff.mpr nonempty
  constructor
  · rintro ⟨same | slashed | longer, place⟩
    · have equal := congrArg List.length same
      omega
    · refine ⟨path.dropLast, ?_, slashed.symm⟩
      intro unnamed
      rw [unnamed, folders.unnamed] at place
      rw [← place] at opens
      cases opens
    · have equal := congrArg List.length longer
      rw [List.length_append] at equal
      omega
  · rintro ⟨front, named, rfl⟩
    rw [List.dropLast_concat]
    exact ⟨Or.inr (Or.inl rfl), (folders.slashed front named).symm⟩

/-- In a call that is written, the root is stored as it was looked up, up to a
slash, and opens the same directory, exactly when what was looked up ends in a
slash with something before it. -/
theorem root_kept_iff {Place : Type} (folders : Nat → Folders Place) (envs : Nat → Env)
    (start : Tool) (last : Prompt → Nat)
    (written : Written (fun moment => (envs moment).within (folders moment)) start last) :
    let run := toolRun (fun moment => (envs moment).within (folders moment)) start
    ∃ path, cutLast (fgets [] 128 (unread run (last .root))).1 = some path ∧
      ((folders (last .root)).place path).isSome = true ∧
      ((∃ pData, Loads (fileAt run (last .bufferSize + 1)) pData ∧
          SameUpToSlash pData.root.bytes path ∧
          (folders (last .root)).place pData.root.bytes = (folders (last .root)).place path) ↔
        ∃ front, front ≠ [] ∧ path = front ++ [slash]) := by
  intro run
  obtain ⟨pData, filed, decided⟩ := written.decided
  obtain ⟨path, cut, nonempty, opens, shorter⟩ := decided.root
  refine ⟨path, cut, opens, ?_⟩
  rw [← cut_root_iff (folders (last .root)) path nonempty opens, ← shorter, filed]
  constructor
  · rintro ⟨other, loads, kept⟩
    rwa [loads_unique loads (loads_saved pData)] at kept
  · intro kept
    exact ⟨pData, loads_saved pData, kept⟩

def srvTree : FileTree :=
  directories [[], [ascii "srv"]] (by decide) (by decide)

/-- The system of the sample sessions, on that tree. -/
def onSrvTree : Env := willing.within (treeFolders srvTree)

theorem accepts_onSrvTree : Accepts onSrvTree :=
  ⟨by decide, by decide, rfl, rfl, rfl, rfl⟩

theorem answering_root_kept :
    ∃ pData, Loads (fileAt (toolRun (fun _ => onSrvTree) answering) 7) pData ∧
      SameUpToSlash pData.root.bytes (ascii "/srv//") ∧
      (treeFolders srvTree).place pData.root.bytes =
        (treeFolders srvTree).place (ascii "/srv//") := by
  obtain ⟨reached, written⟩ := answering_written accepts_onSrvTree
  obtain ⟨path, cut, _, kept⟩ := root_kept_iff (fun _ => treeFolders srvTree) (fun _ => willing)
    answering firstRounds written
  have same : path = ascii "/srv//" := by
    have input := unread_of_reached (reached 2 (by decide))
    have read := cut.symm.trans (congrArg (fun stdin => cutLast (fgets [] 128 stdin).1) input)
    exact Option.some.inj (read.trans (by decide))
  rw [← same]
  apply kept.mpr
  exact ⟨ascii "/srv/", by decide, same.trans (by decide)⟩

/-- The root `/srv` is found, and stored as `/sr`, which is no directory. -/
theorem root_cut_short :
    ∃ pData, Loads (fileAt (toolRun (fun _ => onSrvTree) careless) 7) pData ∧
      cutLast (fgets [] 128 (unread (toolRun (fun _ => onSrvTree) careless) 2)).1 =
        some (ascii "/srv") ∧
      srvTree.opendir (ascii "/srv") = true ∧ pData.root.bytes = ascii "/sr" ∧
      ¬ SameUpToSlash (ascii "/sr") (ascii "/srv") ∧ srvTree.opendir (ascii "/sr") = false ∧
      Written (fun _ => onSrvTree) careless firstRounds := by
  obtain ⟨reached, written⟩ := careless_written accepts_onSrvTree
  rw [fileAt_of_reached (reached 7 (by decide)), unread_of_reached (reached 2 (by decide))]
  exact ⟨_, loads_saved _, by decide, by decide, rfl, by decide, by decide, written⟩

/-- A name that is typed and written loads with the newline behind it, and so
never as it was typed. -/
theorem name_keeps_newline (envs : Nat → Env) (start : Tool) (last : Prompt → Nat)
    (written : Written envs start last) (line rest : Bytes)
    (typed : WholeLine 64 (unread (toolRun envs start) (last .name)) line rest) :
    (∃ pData, Loads (fileAt (toolRun envs start) (last .bufferSize + 1)) pData ∧
        pData.name.bytes = line ++ [newline]) ∧
      ¬ ∃ pData, Loads (fileAt (toolRun envs start) (last .bufferSize + 1)) pData ∧
        pData.name.bytes = line := by
  obtain ⟨pData, filed, decided⟩ := written.decided
  have copied := decided.name
  rw [typed.fgets_eq []] at copied
  have clean : (0 : UInt8) ∉ line ++ [newline] := by
    simpa using ⟨typed.2.2.1, by decide⟩
  have stored : pData.name.bytes = line ++ [newline] := by
    rw [strcpy_bytes copied, cstr_of_noNul _ clean]
  rw [filed]
  refine ⟨⟨pData, loads_saved pData, stored⟩, ?_⟩
  rintro ⟨other, loads, same⟩
  rw [loads_unique loads (loads_saved pData), stored] at same
  have longer := congrArg List.length same
  rw [List.length_append] at longer
  exact absurd longer (by simp)

theorem answering_name :
    WholeLine 64 (unread (toolRun (fun _ => onSrvTree) answering) 1) (ascii "alice")
        (ascii "/srv//\n8080\n0\n2\n600\n") ∧
      (∃ pData, Loads (fileAt (toolRun (fun _ => onSrvTree) answering) 7) pData ∧
        pData.name.bytes = ascii "alice" ++ [newline]) ∧
      ¬ ∃ pData, Loads (fileAt (toolRun (fun _ => onSrvTree) answering) 7) pData ∧
        pData.name.bytes = ascii "alice" := by
  obtain ⟨reached, written⟩ := answering_written accepts_onSrvTree
  have typed : WholeLine 64 (unread (toolRun (fun _ => onSrvTree) answering) 1) (ascii "alice")
      (ascii "/srv//\n8080\n0\n2\n600\n") := by
    rw [unread_of_reached (reached 1 (by decide))]
    decide
  exact ⟨typed, name_keeps_newline (fun _ => onSrvTree) answering firstRounds written _ _ typed⟩

theorem name_not_as_typed :
    ∃ pData, Loads (fileAt (toolRun (fun _ => onSrvTree) answering) 7) pData ∧
      WholeLine 64 (unread (toolRun (fun _ => onSrvTree) answering) 1) (ascii "alice")
        (ascii "/srv//\n8080\n0\n2\n600\n") ∧
      pData.name.bytes = ascii "alice\n" ∧
      Written (fun _ => onSrvTree) answering firstRounds := by
  obtain ⟨reached, written⟩ := answering_written accepts_onSrvTree
  rw [fileAt_of_reached (reached 7 (by decide)), unread_of_reached (reached 1 (by decide))]
  exact ⟨_, loads_saved _, by decide, rfl, written⟩

end Scftp.ConfigurationTool
