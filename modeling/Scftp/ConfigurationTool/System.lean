import Scftp.ConfigurationTool.Calls
import Scftp.Lib.Ledger

set_option autoImplicit false

/- The system, the C library and cJSON behind the calls: the files, the input, what
was handed out and not given back, and what was printed. Memory does not run out:
`malloc`, `cJSON_CreateObject` and `cJSON_PrintUnformatted`, whose results common.c
passes on unchecked, never hand back NULL here. -/
namespace Scftp.ConfigurationTool.Calls

open CString Ledger Program Program.Prog Stdin

/-- What a call hands out. A stream for writing holds what was put into it, and a
buffer the bytes read into it and what the heap holds behind them. -/
inductive Resource where
  | directory
  | reading (node : FileTree.Node)
  | writing (path content : Bytes)
  | buffer (size : Nat) (content residue : Bytes)
  | string (text : Bytes)
  | json (value : Json)
  | socket

inductive Kind where
  | directory
  | stream
  | buffer
  | string
  | json
  | socket
deriving DecidableEq

def Resource.kind : Resource → Kind
  | .directory => .directory
  | .reading _ => .stream
  | .writing _ _ => .stream
  | .buffer _ _ _ => .buffer
  | .string _ => .string
  | .json _ => .json
  | .socket => .socket

/-- What the system keeps count of: descriptors, and not memory. -/
def Kind.descriptor : Kind → Bool
  | .directory => true
  | .stream => true
  | .socket => true
  | _ => false

/-- The files, the unread input and the number of reads, what was handed out, and
what is on the screen. -/
structure System where
  tree : FileTree
  stdin : Bytes
  reads : Nat
  places : List (Option Resource)
  output : Bytes

namespace System

variable (system : System)

def find (pointer : Pointer) : Option Resource := Ledger.find system.places pointer

/-- Hand something out. -/
def add (resource : Resource) : System :=
  { system with places := system.places ++ [some resource] }

/-- The pointer to what is handed out next. -/
def fresh : Returned := { Returned.nothing with pointer := some system.places.length }

def take (resource : Resource) : Returned × System := (system.fresh, system.add resource)

def put (pointer : Pointer) (resource : Option Resource) : System :=
  { system with places := Ledger.put system.places pointer resource }

def held : List Resource := Ledger.held system.places

theorem add_places (resource : Resource) :
    (system.add resource).places = system.places ++ [some resource] := rfl

theorem put_places (pointer : Pointer) (resource : Option Resource) :
    (system.put pointer resource).places = Ledger.put system.places pointer resource := rfl

def shows (text : Bytes) : System := { system with output := system.output ++ text }

/-- What the system answers between one read and the next. -/
def now (envs : Nat → Env) : Env := envs (system.reads - 1)

end System

/-- Where `ftell` finds the end of a file. A directory has its end out of reach. -/
def fileSize : FileTree.Node → Nat
  | .file content => content.length
  | .directory => 2 ^ 63 - 1

/-- What is behind a stream as it was opened. -/
def contentOf : FileTree.Node → Bytes
  | .file content => content
  | .directory => []

def answer (envs : Nat → Env) : Api → System → Returned × System
  | .access path, system =>
      ({ Returned.nothing with succeeds := system.tree.access path }, system)
  | .opendir path, system =>
      if system.tree.opendir path then system.take .directory else (Returned.nothing, system)
  | .closedir dir, system => (Returned.nothing, system.put dir none)
  | .mkdir path, system =>
      match system.tree.mkdir path with
      | none => (Returned.nothing, system)
      | some tree => ({ Returned.nothing with succeeds := true }, { system with tree })
  | .fopen path .r, system =>
      match system.tree.lookup path with
      | none => (Returned.nothing, system)
      | some node => system.take (.reading node)
  | .fopen path .w, system =>
      match system.tree.write path [] with
      | none => (Returned.nothing, system)
      | some tree => { system with tree }.take (.writing path [])
  | .ftell fd, system =>
      match system.find fd with
      | some (.reading node) => ({ Returned.nothing with size := fileSize node }, system)
      | _ => (Returned.nothing, system)
  | .malloc size, system => system.take (.buffer size [] (system.now envs).residue)
  | .fread buffer size fd, system =>
      match system.find buffer, system.find fd with
      | some (.buffer room _ residue), some (.reading node) =>
          (Returned.nothing,
            system.put buffer (some (.buffer room ((contentOf node).take size) residue)))
      | _, _ => (Returned.nothing, system)
  | .fputs jsonString fd, system =>
      match system.find jsonString, system.find fd with
      | some (.string text), some (.writing path content) =>
          (Returned.nothing, system.put fd (some (.writing path (content ++ cstr text))))
      | _, _ => (Returned.nothing, system)
  | .fclose fd, system =>
      match system.find fd with
      | some (.writing path content) =>
          (Returned.nothing,
            { system.put fd none with tree := (system.tree.write path content).getD system.tree })
      | _ => (Returned.nothing, system.put fd none)
  | .free jsonString, system => (Returned.nothing, system.put jsonString none)
  | .cJSONParse buffer, system =>
      match system.find buffer with
      | some (.buffer _ content residue) =>
          match Json.parse (cstr (content ++ residue)) with
          | none => (Returned.nothing, system)
          | some value => system.take (.json value)
      | _ => (Returned.nothing, system)
  | .cJSONCreateObject, system => system.take (.json (.object []))
  | .cJSONAddToObject object member, system =>
      match system.find object with
      | some (.json (.object members)) =>
          (Returned.nothing, system.put object (some (.json (.object (members ++ [member])))))
      | _ => (Returned.nothing, system)
  | .cJSONGetObjectItem object key, system =>
      match system.find object with
      | some (.json value) =>
          ({ Returned.nothing with item := value.getObjectItem (ascii key) }, system)
      | _ => (Returned.nothing, system)
  | .cJSONPrintUnformatted item, system =>
      match system.find item with
      | some (.json value) => system.take (.string value.write)
      | _ => (Returned.nothing, system)
  | .cJSONDelete item, system => (Returned.nothing, system.put item none)
  | .socket, system =>
      if (system.now envs).socket then system.take .socket else (Returned.nothing, system)
  | .bind _ port, system =>
      ({ Returned.nothing with succeeds := (system.now envs).bind port }, system)
  | .close socketFd, system => (Returned.nothing, system.put socketFd none)
  | .fgets buffer size, system =>
      let read := Stdin.fgets buffer size system.stdin
      ({ Returned.nothing with line := read.1 },
        { system with stdin := read.2, reads := system.reads + 1 })
  | .scanf, system =>
      let read := (envs system.reads).scanf system.stdin
      ({ Returned.nothing with number := read.1 },
        { system with stdin := read.2, reads := system.reads + 1 })
  | .printf text, system => (Returned.nothing, system.shows text)
  | .system _, system => (Returned.nothing, system)
  | .fprintfStderr _, system => (Returned.nothing, system)
  | .perror _, system => (Returned.nothing, system)

/-- What the calls ask for: a pointer to something of the right kind that was not
given back, and room for what is read. Only `cJSON_GetObjectItem` takes NULL. -/
def Allowed : Api → System → Prop
  | .closedir dir, system => system.find dir = some .directory
  | .ftell fd, system => ∃ node, system.find fd = some (.reading node)
  | .fread buffer size fd, system =>
      (∃ room content residue, system.find buffer = some (.buffer room content residue) ∧
        size ≤ room) ∧
        ∃ node, system.find fd = some (.reading node)
  | .fputs jsonString fd, system =>
      (∃ text, system.find jsonString = some (.string text)) ∧
        ∃ path content, system.find fd = some (.writing path content)
  | .fclose fd, system => ∃ stream, system.find fd = some stream ∧ stream.kind = .stream
  | .free jsonString, system => ∃ text, system.find jsonString = some (.string text)
  | .cJSONParse buffer, system =>
      ∃ room content residue, system.find buffer = some (.buffer room content residue)
  | .cJSONAddToObject object _, system =>
      ∃ members, system.find object = some (.json (.object members))
  | .cJSONGetObjectItem object _, system =>
      object = none ∨ ∃ value, system.find object = some (.json value)
  | .cJSONPrintUnformatted item, system => ∃ value, system.find item = some (.json value)
  | .cJSONDelete item, system => ∃ value, system.find item = some (.json value)
  | .bind socketFd _, system => system.find socketFd = some .socket
  | .close socketFd, system => system.find socketFd = some .socket
  | _, _ => True

/-- What a run of calls did: the files it leaves, what it did not give back, and what
it printed. It reads no input. -/
structure Did (before after : System) (tree : FileTree) (left : List Kind) (text : Bytes) :
    Prop where
  tree : after.tree = tree
  stdin : after.stdin = before.stdin
  reads : after.reads = before.reads
  held : ∃ more, after.places = before.places ++ more ∧ (Ledger.held more).map Resource.kind = left
  output : after.output = before.output ++ text

namespace Did

variable {before middle after : System} {tree later : FileTree} {left more : List Kind}
  {text behind : Bytes}

/-- A call that changes the files and nothing else. -/
theorem files (system : System) (tree : FileTree) :
    Did system { system with tree } tree [] [] :=
  ⟨rfl, rfl, rfl, ⟨[], (List.append_nil _).symm, rfl⟩, (List.append_nil _).symm⟩

theorem refl (system : System) : Did system system system.tree [] [] := files system system.tree

theorem shows (system : System) (text : Bytes) :
    Did system (system.shows text) system.tree [] text :=
  ⟨rfl, rfl, rfl, ⟨[], (List.append_nil _).symm, rfl⟩, rfl⟩

/-- A thing that is handed out and kept. -/
theorem add (system : System) (resource : Resource) :
    Did system (system.add resource) system.tree [resource.kind] [] :=
  ⟨rfl, rfl, rfl, ⟨[some resource], rfl, rfl⟩, (List.append_nil _).symm⟩

theorem trans (first : Did before middle tree left text)
    (second : Did middle after later more behind) :
    Did before after later (left ++ more) (text ++ behind) := by
  obtain ⟨places, grown, kinds⟩ := first.held
  obtain ⟨others, further, same⟩ := second.held
  refine ⟨second.tree, second.stdin.trans first.stdin, second.reads.trans first.reads,
    ⟨places ++ others, ?_, ?_⟩, ?_⟩
  · rw [further, grown, List.append_assoc]
  · rw [held_append, List.map_append, kinds, same]
  · rw [second.output, first.output, List.append_assoc]

end Did

end Scftp.ConfigurationTool.Calls
