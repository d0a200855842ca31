import Mathlib.Logic.Function.Basic
import Scftp.Lib.CString

set_option autoImplicit false

/- A tree of directories and files without links, and the calls of the operating
system on its paths. -/
namespace FileTree

open CString (Bytes)

inductive Node where
  | directory
  | file (content : Bytes)
deriving DecidableEq

/-- A place in the tree: the names on the way to it from the root, last first. -/
abbrev Location := List Bytes

abbrev Nodes := Location → Option Node

abbrev slash : UInt8 := 47

/-- The names in a path. Repeated and trailing slashes make no difference. -/
def components (path : Bytes) : List Bytes := (path.splitOn slash).filter (· ≠ [])

/-- One name on from a directory. -/
def enter (name : Bytes) (location : Location) : Location :=
  if name = CString.ascii "." then location
  else if name = CString.ascii ".." then location.tail
  else name :: location

/-- Follow names from a location. What is passed must be directories; what is
reached need not exist. -/
def walk (nodes : Nodes) : Location → List Bytes → Option Location
  | location, [] => some location
  | location, name :: rest =>
      if nodes location = some .directory then walk nodes (enter name location) rest else none

end FileTree

/-- A file tree with the directory that relative paths start from. What it holds
stands in directories. -/
structure FileTree where
  nodes : FileTree.Nodes
  workingDirectory : FileTree.Location
  root : nodes [] = some .directory
  closed : ∀ name location, nodes (name :: location) ≠ none → nodes location = some .directory
  working : nodes workingDirectory = some .directory

namespace FileTree

open CString (Bytes)

/-- Where a node may be put: in a directory, and not over another directory. -/
structure Room (tree : FileTree) (location : Location) : Prop where
  below : ∃ name parent, location = name :: parent ∧ tree.nodes parent = some .directory
  free : tree.nodes location ≠ some .directory

/-- Put a node where there is room for it. -/
def put (tree : FileTree) (location : Location) (node : Node) (room : tree.Room location) :
    FileTree where
  nodes := Function.update tree.nodes location (some node)
  workingDirectory := tree.workingDirectory
  root := by
    obtain ⟨name, parent, rfl, _⟩ := room.below
    rw [Function.update_of_ne (List.cons_ne_nil name parent).symm]
    exact tree.root
  closed := by
    intro name place present
    have above : tree.nodes place = some .directory := by
      by_cases here : name :: place = location
      · obtain ⟨last, parent, rfl, directory⟩ := room.below
        rwa [(List.cons.inj here).2]
      · rw [Function.update_of_ne here] at present
        exact tree.closed name place present
    have other : place ≠ location := by
      rintro rfl
      exact room.free above
    rwa [Function.update_of_ne other]
  working := by
    have other : tree.workingDirectory ≠ location := by
      rintro rfl
      exact room.free tree.working
    rw [Function.update_of_ne other]
    exact tree.working

/-- A tree of directories alone. -/
def directories (places : List Location) (rooted : [] ∈ places)
    (inside : ∀ place ∈ places, place.tail ∈ places) : FileTree where
  nodes location := if location ∈ places then some .directory else none
  workingDirectory := []
  root := if_pos rooted
  closed := by
    intro name location present
    by_cases member : name :: location ∈ places
    · exact if_pos (inside _ member)
    · exact absurd (if_neg member) present
  working := if_pos rooted

variable (tree : FileTree) (path : Bytes)

def resolve : Option Location :=
  if path = [] then none
  else walk tree.nodes (if path.head? = some slash then [] else tree.workingDirectory)
    (components path)

def lookup : Option Node := (tree.resolve path).bind tree.nodes

variable {tree path}

/-- A way leads to a directory or a name in one. -/
theorem walk_below {location reached : Location} {names : List Bytes}
    (start : tree.nodes location = some .directory)
    (walked : walk tree.nodes location names = some reached)
    (free : tree.nodes reached ≠ some .directory) : tree.Room reached := by
  induction names generalizing location with
  | nil =>
      cases walked
      exact absurd start free
  | cons name names ih =>
      rw [walk, if_pos start] at walked
      by_cases directory : tree.nodes (enter name location) = some .directory
      · exact ih directory walked
      · have last : names = [] := by
          cases names with
          | nil => rfl
          | cons next names =>
              rw [walk, if_neg directory] at walked
              cases walked
        subst last
        cases walked
        refine ⟨?_, free⟩
        unfold enter at directory ⊢
        split at directory
        · exact absurd start directory
        · split at directory
          · rename_i same above
            cases location with
            | nil => exact absurd tree.root directory
            | cons last parent =>
                exact absurd (tree.closed last parent (by simp [start])) directory
          · rename_i same above
            rw [if_neg same, if_neg above]
            exact ⟨name, location, rfl, start⟩

theorem room_of_resolve {location : Location} (resolved : tree.resolve path = some location)
    (free : tree.nodes location ≠ some .directory) : tree.Room location := by
  unfold resolve at resolved
  split at resolved
  · cases resolved
  · apply walk_below _ resolved free
    split
    · exact tree.root
    · exact tree.working

variable (tree path)

/-- Whether `access(path, F_OK)` succeeds. A slash behind the path of a regular file,
for which it fails with `ENOTDIR`, is passed over. -/
def access : Bool := (tree.lookup path).isSome

/-- Whether `opendir` succeeds. -/
def opendir : Bool := tree.lookup path = some .directory

/-- The tree after `mkdir`; `none` when it fails. -/
def mkdir : Option FileTree :=
  match resolved : tree.resolve path with
  | none => none
  | some location =>
      if free : tree.nodes location = none then
        some (tree.put location .directory (room_of_resolve resolved (by simp [free])))
      else none

/-- The content of a file that `fopen(path, "r")` opens; `none` when it fails. -/
def read : Option Bytes :=
  match tree.lookup path with
  | some (.file content) => some content
  | _ => none

/-- The tree after `fopen(path, "w")`, writing a content and closing; `none`
when the file cannot be opened. -/
def write (content : Bytes) : Option FileTree :=
  match resolved : tree.resolve path with
  | none => none
  | some location =>
      if free : tree.nodes location ≠ some .directory then
        some (tree.put location (.file content) (room_of_resolve resolved free))
      else none

variable {tree path}

theorem components_append (front rest : Bytes) :
    components (front ++ slash :: rest) = components front ++ components rest := by
  rw [components, List.splitOn_append_cons_self, List.filter_append, components, components]

theorem walk_append (nodes : Nodes) (location : Location) (front rest : List Bytes) :
    walk nodes location (front ++ rest) =
      (walk nodes location front).bind fun reached => walk nodes reached rest := by
  induction front generalizing location with
  | nil => rfl
  | cons name front ih =>
      rw [List.cons_append, walk, walk]
      split
      · exact ih (enter name location)
      · rfl

theorem ne_nil_of_resolve {location : Location} (here : tree.resolve path = some location) :
    path ≠ [] := by
  intro unnamed
  rw [unnamed, resolve] at here
  cases here

theorem resolve_append (front rest : Bytes) (some : front ≠ []) :
    tree.resolve (front ++ slash :: rest) =
      (tree.resolve front).bind fun reached => walk tree.nodes reached (components rest) := by
  have head : (front ++ slash :: rest).head? = front.head? := by
    obtain ⟨byte, more, rfl⟩ := List.exists_cons_of_ne_nil some
    rfl
  simp only [resolve, List.append_eq_nil_iff, some, false_and, ↓reduceIte, head, components_append,
    walk_append]

theorem resolve_child {location : Location} (here : tree.resolve path = some location)
    (directory : tree.nodes location = some .directory) (rest name : Bytes)
    (single : components rest = [name]) :
    tree.resolve (path ++ slash :: rest) = some (enter name location) := by
  rw [resolve_append path rest (ne_nil_of_resolve here), here, Option.bind_some, single, walk,
    if_pos directory, walk]

/-- Below anything but a directory no path leads anywhere. -/
theorem resolve_below_none {location : Location} (here : tree.resolve path = some location)
    (missing : tree.nodes location ≠ some .directory) (rest : Bytes) (some : components rest ≠ []) :
    tree.resolve (path ++ slash :: rest) = none := by
  obtain ⟨name, names, named⟩ := List.exists_cons_of_ne_nil some
  rw [resolve_append path rest (ne_nil_of_resolve here), here, Option.bind_some, named, walk,
    if_neg missing]

/-- Only directories decide where a path leads. -/
theorem walk_congr {before after : Nodes}
    (same : ∀ location, before location = some .directory ↔ after location = some .directory)
    (location : Location) (names : List Bytes) :
    walk before location names = walk after location names := by
  induction names generalizing location with
  | nil => rfl
  | cons name names ih =>
      rw [walk, walk]
      by_cases directory : before location = some .directory
      · rw [if_pos directory, if_pos ((same location).mp directory), ih]
      · rw [if_neg directory, if_neg (mt (same location).mpr directory)]

/-- A new directory closes no way. -/
theorem walk_mono {before after : Nodes}
    (kept : ∀ location, before location = some .directory → after location = some .directory)
    {location reached : Location} {names : List Bytes}
    (walked : walk before location names = some reached) :
    walk after location names = some reached := by
  induction names generalizing location with
  | nil => exact walked
  | cons name names ih =>
      rw [walk] at walked ⊢
      split at walked
      · rename_i directory
        rw [if_pos (kept location directory)]
        exact ih walked
      · cases walked

theorem lookup_of_resolve {location : Location} (resolved : tree.resolve path = some location) :
    tree.lookup path = tree.nodes location := by
  rw [lookup, resolved, Option.bind_some]

/-- Writing a file changes one node, and where no path leads. -/
theorem write_nodes {location : Location} (content : Bytes)
    (resolved : tree.resolve path = some location) (free : tree.nodes location ≠ some .directory) :
    ∃ after, tree.write path content = some after ∧
      after.nodes = Function.update tree.nodes location (some (.file content)) ∧
      ∀ other, after.resolve other = tree.resolve other := by
  have room := room_of_resolve resolved free
  have written : tree.write path content = some (tree.put location (.file content) room) := by
    unfold write
    split
    · simp_all
    · rename_i found reached
      obtain rfl : location = found := Option.some.inj (resolved.symm.trans reached)
      exact dif_pos free
  refine ⟨_, written, rfl, ?_⟩
  intro other
  have same : ∀ place, tree.nodes place = some .directory ↔
      Function.update tree.nodes location (some (.file content)) place = some .directory := by
    intro place
    by_cases here : place = location
    · rw [here, Function.update_self]
      simp [free]
    · rw [Function.update_of_ne here]
  rw [resolve, resolve, put, walk_congr same]

/-- What was written is read back. -/
theorem write_of_resolve {location : Location} (content : Bytes)
    (resolved : tree.resolve path = some location) (free : tree.nodes location ≠ some .directory) :
    ∃ after, tree.write path content = some after ∧ after.read path = some content := by
  obtain ⟨after, written, nodes, ways⟩ := write_nodes content resolved free
  refine ⟨after, written, ?_⟩
  simp only [read, lookup_of_resolve ((ways path).trans resolved), nodes, Function.update_self]

theorem write_eq_none (content : Bytes) (lost : tree.resolve path = none) :
    tree.write path content = none := by
  unfold write
  split
  · rfl
  · simp_all

theorem write_eq_some {after : FileTree} {content : Bytes}
    (written : tree.write path content = some after) :
    ∃ location, tree.resolve path = some location ∧
      tree.nodes location ≠ some .directory ∧
      ∃ room : tree.Room location, after = tree.put location (.file content) room := by
  unfold write at written
  split at written
  · cases written
  · rename_i location resolved
    split at written
    · rename_i free
      exact ⟨location, resolved, free, room_of_resolve resolved free,
        (Option.some.inj written).symm⟩
    · cases written

/-- Whether a file can be written does not depend on what is written. -/
theorem write_isSome (first second : Bytes) :
    (tree.write path first).isSome = (tree.write path second).isSome := by
  unfold write
  split
  · rfl
  · split <;> rfl

theorem write_of_read {old : Bytes} (held : tree.read path = some old) (content : Bytes) :
    (tree.write path content).isSome = true := by
  unfold read at held
  split at held
  · rename_i found
    obtain ⟨location, resolved, node⟩ := Option.bind_eq_some_iff.mp found
    have free : tree.nodes location ≠ some .directory := by
      rw [node]
      exact nofun
    obtain ⟨after, written, _⟩ := write_of_resolve content resolved free
    rw [written]
    rfl
  · cases held

/-- Writes change no directories. -/
theorem write_ways {after : FileTree} {content : Bytes}
    (written : tree.write path content = some after) (other : Bytes) :
    after.resolve other = tree.resolve other ∧ after.opendir other = tree.opendir other := by
  obtain ⟨location, resolved, free, -⟩ := write_eq_some written
  obtain ⟨same, again, nodes, ways⟩ := write_nodes content resolved free
  obtain rfl : same = after := Option.some.inj (again.symm.trans written)
  refine ⟨ways other, ?_⟩
  have kept : same.lookup other = some .directory ↔ tree.lookup other = some .directory := by
    rw [lookup, lookup, ways other]
    cases tree.resolve other with
    | none => rfl
    | some place =>
        rw [Option.bind_some, Option.bind_some, nodes]
        by_cases here : place = location
        · rw [here, Function.update_self]
          simp [free]
        · rw [Function.update_of_ne here]
  simp only [opendir, kept]

theorem lookup_write {after : FileTree} {content : Bytes}
    (written : tree.write path content = some after) :
    after.lookup path = some (.file content) := by
  obtain ⟨location, resolved, free, -⟩ := write_eq_some written
  obtain ⟨same, again, nodes, ways⟩ := write_nodes content resolved free
  obtain rfl : same = after := Option.some.inj (again.symm.trans written)
  rw [lookup_of_resolve ((ways path).trans resolved), nodes, Function.update_self]

/-- A second write of a file leaves what it would have left alone. -/
theorem write_write {after : FileTree} {first : Bytes}
    (written : tree.write path first = some after) (second : Bytes) :
    after.write path second = tree.write path second := by
  obtain ⟨location, resolved, free, room, put⟩ := write_eq_some written
  have reached : after.resolve path = some location :=
    (write_ways written path).1.trans resolved
  have stands : after.nodes location ≠ some .directory := by
    rw [← lookup_of_resolve reached, lookup_write written]
    simp
  obtain ⟨last, lastly, -, -⟩ := write_nodes second reached stands
  obtain ⟨once, alone, -, -⟩ := write_nodes second resolved free
  obtain ⟨spot, found, -, lastRoom, lastPut⟩ := write_eq_some lastly
  obtain ⟨place, there, -, onceRoom, oncePut⟩ := write_eq_some alone
  obtain rfl : location = spot := Option.some.inj (reached.symm.trans found)
  obtain rfl : location = place := Option.some.inj (resolved.symm.trans there)
  rw [lastly, alone, lastPut, oncePut]
  subst put
  simp only [FileTree.put, Function.update_idem]

/-- `mkdir` where nothing stands makes a directory, and all ways stay open. -/
theorem mkdir_of_resolve {location : Location} (resolved : tree.resolve path = some location)
    (free : tree.nodes location = none) :
    ∃ after, tree.mkdir path = some after ∧
      after.nodes = Function.update tree.nodes location (some .directory) ∧
      ∀ other place, tree.resolve other = some place → after.resolve other = some place := by
  have room := room_of_resolve resolved (by simp [free])
  have made : tree.mkdir path = some (tree.put location .directory room) := by
    unfold mkdir
    split
    · simp_all
    · rename_i found reached
      obtain rfl : location = found := Option.some.inj (resolved.symm.trans reached)
      exact dif_pos free
  refine ⟨_, made, rfl, ?_⟩
  intro other place reached
  have kept : ∀ spot, tree.nodes spot = some .directory →
      Function.update tree.nodes location (some .directory) spot = some .directory := by
    intro spot directory
    by_cases here : spot = location
    · rw [here, Function.update_self]
    · rwa [Function.update_of_ne here]
  unfold resolve at reached ⊢
  split at reached
  · cases reached
  · rename_i named
    rw [if_neg named]
    exact walk_mono kept reached

theorem mkdir_eq_none (lost : tree.resolve path = none) : tree.mkdir path = none := by
  unfold mkdir
  split
  · rfl
  · simp_all

theorem lookup_mkdir {after : FileTree} {front rest name : Bytes}
    (made : tree.mkdir (front ++ [slash]) = some after) (some : front ≠ [])
    (single : components rest = [name])
    (plain : ∀ location, enter name location = name :: location) :
    after.lookup (front ++ slash :: rest) = none := by
  cases resolved : tree.resolve (front ++ [slash]) with
  | none =>
      rw [mkdir_eq_none resolved] at made
      cases made
  | some location =>
      have free : tree.nodes location = none := by
        unfold mkdir at made
        split at made
        · cases made
        · rename_i found reached
          obtain rfl : location = found := Option.some.inj (resolved.symm.trans reached)
          split at made
          · assumption
          · cases made
      obtain ⟨other, again, nodes, ways⟩ := mkdir_of_resolve resolved free
      obtain rfl : other = after := Option.some.inj (again.symm.trans made)
      have here : tree.resolve front = Option.some location := by
        rw [resolve_append front [] some] at resolved
        obtain ⟨reached, whole, same⟩ := Option.bind_eq_some_iff.mp resolved
        rw [whole]
        exact same
      have directory : other.nodes location = Option.some .directory := by
        rw [nodes, Function.update_self]
      have child := resolve_child (ways front location here) directory rest name single
      have absent : tree.nodes (name :: location) = none := by
        by_contra present
        rw [tree.closed name location present] at free
        cases free
      rw [lookup_of_resolve child, plain, nodes,
        Function.update_of_ne (List.cons_ne_self name location), absent]

end FileTree
