import Scftp.ConfigurationTool.System

set_option autoImplicit false

/- What the functions do, call by call: every call is one that is allowed, and what
is taken and not given back is known. -/
namespace Scftp.ConfigurationTool.Calls

open CString FileTree Ledger Machine Program Program.Prog Stdin

/-- A pointer to what was handed out after some other things. -/
theorem find_places {system : System} {places : List (Option Resource)} (offset : Nat)
    {more : List (Option Resource)} {resource : Resource} (grown : system.places = places ++ more)
    (found : more[offset]? = some (some resource)) :
    system.find (some (places.length + offset)) = some resource := by
  rw [System.find, grown, find_append, found]
  rfl

section Calls

variable {envs : Nat → Env} {system : System} {α : Type} {next : Returned → Prog Api Returned α}
  {post : α → System → Prop}

theorem ftell_wp {fd : Pointer} {node : Node} (opened : system.find fd = some (.reading node))
    (goesOn : (next { Returned.nothing with size := fileSize node }).wp (answer envs) Allowed post
      system) :
    (perform (.ftell fd) >>= next).wp (answer envs) Allowed post system := by
  rw [perform_bind, wp_call, answer, opened]
  exact ⟨⟨node, opened⟩, goesOn⟩

theorem fputs_wp {jsonString fd : Pointer} {text path content : Bytes}
    (printed : system.find jsonString = some (.string text))
    (opened : system.find fd = some (.writing path content))
    (goesOn : (next Returned.nothing).wp (answer envs) Allowed post
      (system.put fd (some (.writing path (content ++ cstr text))))) :
    (perform (.fputs jsonString fd) >>= next).wp (answer envs) Allowed post system := by
  rw [perform_bind, wp_call, answer, printed, opened]
  exact ⟨⟨⟨text, printed⟩, path, content, opened⟩, goesOn⟩

theorem fcloseWriting_wp {fd : Pointer} {path content : Bytes} {tree : FileTree}
    (opened : system.find fd = some (.writing path content))
    (written : system.tree.write path content = some tree)
    (goesOn : (next Returned.nothing).wp (answer envs) Allowed post
      { system.put fd none with tree }) :
    (perform (.fclose fd) >>= next).wp (answer envs) Allowed post system := by
  rw [perform_bind, wp_call, answer, opened]
  refine ⟨⟨_, opened, rfl⟩, ?_⟩
  simp only [written, Option.getD_some]
  exact goesOn

theorem fread_wp {buffer fd : Pointer} {room size : Nat} {content residue : Bytes} {node : Node}
    (handed : system.find buffer = some (.buffer room content residue)) (fits : size ≤ room)
    (opened : system.find fd = some (.reading node))
    (goesOn : (next Returned.nothing).wp (answer envs) Allowed post
      (system.put buffer (some (.buffer room ((contentOf node).take size) residue)))) :
    (perform (.fread buffer size fd) >>= next).wp (answer envs) Allowed post system := by
  rw [perform_bind, wp_call, answer, handed, opened]
  exact ⟨⟨⟨room, content, residue, handed, fits⟩, node, opened⟩, goesOn⟩

theorem fcloseReading_wp {fd : Pointer} {node : Node}
    (opened : system.find fd = some (.reading node))
    (goesOn : (next Returned.nothing).wp (answer envs) Allowed post (system.put fd none)) :
    (perform (.fclose fd) >>= next).wp (answer envs) Allowed post system := by
  rw [perform_bind, wp_call, answer, opened]
  exact ⟨⟨_, opened, rfl⟩, goesOn⟩

theorem free_wp {jsonString : Pointer} {text : Bytes}
    (printed : system.find jsonString = some (.string text))
    (goesOn : (next Returned.nothing).wp (answer envs) Allowed post (system.put jsonString none)) :
    (perform (.free jsonString) >>= next).wp (answer envs) Allowed post system :=
  ⟨⟨text, printed⟩, goesOn⟩

theorem cJSONPrintUnformatted_wp {item : Pointer} {value : Json}
    (held : system.find item = some (.json value))
    (goesOn : (next system.fresh).wp (answer envs) Allowed post
      (system.add (.string value.write))) :
    (perform (.cJSONPrintUnformatted item) >>= next).wp (answer envs) Allowed post system := by
  rw [perform_bind, wp_call, answer, held]
  exact ⟨⟨value, held⟩, goesOn⟩

theorem cJSONParse_wp {buffer : Pointer} {room : Nat} {content residue : Bytes}
    (held : system.find buffer = some (.buffer room content residue))
    (fails : Json.parse (cstr (content ++ residue)) = none →
      (next Returned.nothing).wp (answer envs) Allowed post system)
    (parses : ∀ value, Json.parse (cstr (content ++ residue)) = some value →
      (next system.fresh).wp (answer envs) Allowed post (system.add (.json value))) :
    (perform (.cJSONParse buffer) >>= next).wp (answer envs) Allowed post system := by
  rw [perform_bind, wp_call, answer, held]
  refine ⟨⟨room, content, residue, held⟩, ?_⟩
  cases parsed : Json.parse (cstr (content ++ residue)) with
  | none =>
      simp only [parsed]
      exact fails parsed
  | some value =>
      simp only [parsed]
      exact parses value parsed

/-- A text is put into a file in three calls, unless the file does not open. -/
theorem writeFile_wp {path text : Bytes} {jsonString : Pointer} {failed rest : Prog Api Returned α}
    (printed : system.find jsonString = some (.string text))
    (fails : system.tree.write path (cstr text) = none →
      failed.wp (answer envs) Allowed post system)
    (opens : ∀ tree, system.tree.write path (cstr text) = some tree →
      rest.wp (answer envs) Allowed post
        { system with tree, places := system.places ++ [none] }) :
    (perform (.fopen path .w) >>= fun fd =>
      if fd.pointer.isNone then failed
      else perform (.fputs jsonString fd.pointer) >>= fun _ =>
        perform (.fclose fd.pointer) >>= fun _ => rest).wp (answer envs) Allowed post system := by
  rw [perform_bind, wp_call]
  refine ⟨trivial, ?_⟩
  have alike : (system.tree.write path []).isSome = (system.tree.write path (cstr text)).isSome :=
    write_isSome [] (cstr text)
  cases emptied : system.tree.write path [] with
  | none =>
      rw [emptied, Option.isSome_none, eq_comm, Option.isSome_eq_false_iff,
        Option.isNone_iff_eq_none] at alike
      simp only [answer, emptied, Returned.nothing, Option.isNone_none, ↓reduceIte]
      exact fails alike
  | some opened =>
      rw [emptied, Option.isSome_some, eq_comm, Option.isSome_iff_exists] at alike
      obtain ⟨tree, written⟩ := alike
      have rewritten : opened.write path (cstr text) = some tree :=
        (write_write emptied (cstr text)).trans written
      let stream : System := { system with tree := opened }.add (.writing path [])
      have held : stream.find jsonString = some (.string text) :=
        find_of_find system.places _ printed
      have empty : stream.find (some system.places.length) = some (.writing path []) :=
        find_places 0 rfl rfl
      let filled := stream.put (some system.places.length) (some (.writing path (cstr text)))
      have places : filled.places = system.places ++ [some (.writing path (cstr text))] :=
        put_taken system.places _ _
      have full : filled.find (some system.places.length) = some (.writing path (cstr text)) :=
        find_places 0 places rfl
      have closed : (filled.put (some system.places.length) none).places =
          system.places ++ [none] := by
        rw [System.put, places]
        exact put_taken system.places _ _
      simp only [answer, emptied, System.take, System.fresh, Option.isNone_some,
        Bool.false_eq_true, ↓reduceIte]
      apply fputs_wp held empty
      apply fcloseWriting_wp full rewritten
      have result := opens tree written
      rw [← closed] at result
      exact result

/-- A file is read into a new buffer in three calls. -/
theorem readFile_wp {places : List (Option Resource)} {content : Bytes}
    (opened : system.places = places ++ [some (.reading (.file content))])
    (goesOn : ∀ handed : Returned, handed.pointer = some (places.length + 1) →
      (next handed).wp (answer envs) Allowed post
        { system with places := places ++
          [none, some (.buffer (content.length + 1) content (system.now envs).residue)] }) :
    (perform (.malloc (content.length + 1)) >>= fun fileBuffer =>
      perform (.fread fileBuffer.pointer content.length (some places.length)) >>= fun _ =>
        perform (.fclose (some places.length)) >>= fun _ =>
          next fileBuffer).wp (answer envs) Allowed post system := by
  rw [perform_bind, wp_call]
  refine ⟨trivial, ?_⟩
  let stream : Resource := .reading (.file content)
  let buffer (bytes : Bytes) : Resource :=
    .buffer (content.length + 1) bytes (system.now envs).residue
  let given := system.add (buffer [])
  have number : system.places.length = places.length + 1 := by
    rw [opened, List.length_append]
    rfl
  have both : given.places = places ++ [some stream, some (buffer [])] := by
    rw [System.add_places, opened, List.append_assoc]
    rfl
  have empty : given.find (some (places.length + 1)) = some (buffer []) := find_places 1 both rfl
  have open' : given.find (some places.length) = some stream := find_places 0 both rfl
  let filled := given.put (some (places.length + 1)) (some (buffer content))
  have full : filled.places = places ++ [some stream, some (buffer content)] := by
    rw [System.put_places, both]
    exact put_append places _ 1 _
  have still : filled.find (some places.length) = some stream := find_places 0 full rfl
  have closed : (filled.put (some places.length) none).places =
      places ++ [none, some (buffer content)] := by
    rw [System.put_places, full]
    exact put_taken places _ none
  have whole : (contentOf (.file content)).take content.length = content := List.take_length
  have result := goesOn system.fresh (congrArg some number)
  rw [← closed] at result
  simp only [answer, System.take, System.fresh, number]
  apply fread_wp empty (Nat.le_succ _) open'
  rw [whole]
  apply fcloseReading_wp still
  simp only [System.fresh, number] at result
  exact result

end Calls

section Utils

variable {envs : Nat → Env} {system : System}

theorem printf_wp {text : Bytes} {post : Unit → System → Prop}
    (goesOn : ∀ after, Did system after system.tree [] text → post () after) :
    (printf text).wp (answer envs) Allowed post system :=
  ⟨trivial, goesOn _ (Did.shows system text)⟩

theorem checkFolderExist_wp {folderName : Bytes} {post : UInt8 → System → Prop}
    (goesOn : ∀ after text, Did system after system.tree [] text →
      post (ConfigurationTool.checkFolderExist system.tree folderName) after) :
    (checkFolderExist folderName).wp (answer envs) Allowed post system := by
  rw [checkFolderExist, perform_bind, wp_call]
  refine ⟨trivial, ?_⟩
  cases opens : system.tree.opendir folderName with
  | true =>
      simp only [ConfigurationTool.checkFolderExist, opens, ↓reduceIte] at goesOn
      simp only [answer, opens, ↓reduceIte, System.take]
      refine ⟨trivial, ?_, goesOn _ _ ⟨rfl, rfl, rfl, ⟨[none], ?_, rfl⟩, rfl⟩⟩
      · exact find_taken system.places [some .directory]
      · exact put_taken system.places [some .directory] none
  | false =>
      simp only [ConfigurationTool.checkFolderExist, opens, Bool.false_eq_true, ↓reduceIte]
        at goesOn
      simp only [answer, opens, Bool.false_eq_true, ↓reduceIte]
      exact ⟨trivial, goesOn _ _ (Did.shows system _)⟩

theorem checkFileExist_wp {fileName : Bytes} {post : UInt8 → System → Prop}
    (goesOn : ∀ after text, Did system after system.tree [] text →
      post (ConfigurationTool.checkFileExist system.tree fileName) after) :
    (checkFileExist fileName).wp (answer envs) Allowed post system := by
  rw [checkFileExist, perform_bind, wp_call]
  refine ⟨trivial, ?_⟩
  cases found : system.tree.access fileName with
  | true =>
      simp only [ConfigurationTool.checkFileExist, found, ↓reduceIte] at goesOn
      simp only [answer, found, ↓reduceIte]
      exact ⟨trivial, goesOn _ _ (Did.shows system _)⟩
  | false =>
      simp only [ConfigurationTool.checkFileExist, found, Bool.false_eq_true, ↓reduceIte] at goesOn
      simp only [answer, found, Bool.false_eq_true, ↓reduceIte]
      exact ⟨trivial, goesOn _ _ (Did.shows system _)⟩

theorem fileSize_eq_zero (node : Node) : fileSize node = 0 ↔ node = .file [] := by
  cases node with
  | directory => simp [fileSize]
  | file content => simp [fileSize]

/-- A stream stays open when the file opens. -/
theorem checkFileEmpty_wp {fileName : Bytes} {post : UInt8 → System → Prop}
    (goesOn : ∀ after text, Did system after system.tree
        (if system.tree.access fileName then [.stream] else []) text →
      post (ConfigurationTool.checkFileEmpty system.tree fileName) after) :
    (checkFileEmpty fileName).wp (answer envs) Allowed post system := by
  rw [checkFileEmpty, perform_bind, wp_call]
  refine ⟨trivial, ?_⟩
  cases found : system.tree.lookup fileName with
  | none =>
      simp only [ConfigurationTool.checkFileEmpty, access, found, Option.isSome_none,
        Bool.false_eq_true, ↓reduceIte] at goesOn
      simp only [answer, found, Returned.nothing, Option.isSome_none, Bool.false_eq_true,
        ↓reduceIte]
      exact ⟨trivial, goesOn _ _ (Did.shows system _)⟩
  | some node =>
      simp only [ConfigurationTool.checkFileEmpty, access, found, Option.isSome_some,
        ↓reduceIte] at goesOn
      have opened : (system.add (.reading node)).find (some system.places.length) =
          some (.reading node) := find_places 0 rfl rfl
      have result := goesOn _ _ (Did.add system (.reading node))
      simp only [answer, found, System.take, System.fresh, Option.isSome_some, ↓reduceIte]
      apply ftell_wp opened
      simp only [fileSize_eq_zero]
      cases node with
      | directory => exact result
      | file content =>
          cases content with
          | nil => exact result
          | cons byte rest => exact result

theorem createFolder_wp {folderPath : Bytes} {post : Unit → System → Prop}
    (goesOn : ∀ after text,
      Did system after (ConfigurationTool.createFolder system.tree folderPath) [] text →
      post () after) :
    (createFolder folderPath).wp (answer envs) Allowed post system := by
  rw [createFolder, wp_bind]
  apply printf_wp
  intro printed before
  rw [perform_bind, wp_call]
  refine ⟨trivial, ?_⟩
  rw [ConfigurationTool.createFolder, ← before.tree] at goesOn
  cases made : printed.tree.mkdir folderPath with
  | none =>
      simp only [made, Option.getD_none] at goesOn
      simp only [answer, made]
      apply printf_wp
      intro after behind
      exact goesOn after _ (before.trans behind)
  | some tree =>
      simp only [made, Option.getD_some] at goesOn
      simp only [answer, made]
      apply printf_wp
      intro after behind
      exact goesOn after _ (before.trans ((Did.files printed tree).trans behind))

end Utils

section Common

variable {envs : Nat → Env} {system : System}

/-- The members are added one after the other. -/
theorem addMembers_wp {places : List (Option Resource)} (members : List (Str × Json))
    {post : List Returned → System → Prop} :
    ∀ done (system : System), system.places = places ++ [some (.json (.object done))] →
      (∀ results, post results { system with
        places := places ++ [some (.json (.object (done ++ members)))] }) →
      (Prog.sequence (members.map (Api.cJSONAddToObject (some places.length) ·))).wp (answer envs)
        Allowed post system := by
  induction members generalizing post with
  | nil =>
      intro done system grown goesOn
      rw [List.append_nil, ← grown] at goesOn
      exact goesOn []
  | cons member rest ih =>
      intro done system grown goesOn
      have held : system.find (some places.length) = some (.json (.object done)) :=
        find_places 0 grown rfl
      rw [List.map_cons, Prog.sequence, perform_bind, wp_call, answer, held]
      refine ⟨⟨done, held⟩, ?_⟩
      rw [wp_bind]
      apply ih (done ++ [member])
      · simp only [System.put, grown, put_taken]
        rfl
      · intro results
        rw [List.append_assoc]
        exact goesOn _

theorem createObject_wp {members : List (Str × Json)} {post : Pointer → System → Prop}
    (goesOn : post (some system.places.length) (system.add (.json (.object members)))) :
    (createObject members).wp (answer envs) Allowed post system := by
  rw [createObject, perform_bind, wp_call]
  refine ⟨trivial, ?_⟩
  rw [wp_bind]
  exact addMembers_wp members [] _ rfl fun _ => goesOn

/-- What a write of a file leaves behind in memory: its text, when the file does not
open. -/
def writeLeaks (opens : Bool) : List Kind := if opens then [] else [.string]

theorem jsonToFile_wp {object : Pointer} {value : Json} {path : Bytes} {post : Unit → System → Prop}
    (held : system.find object = some (.json value))
    (goesOn : ∀ after text,
      Did system after
        ((system.tree.write path (ConfigurationTool.jsonToFile value)).getD system.tree)
        (writeLeaks (system.tree.write path (ConfigurationTool.jsonToFile value)).isSome) text →
      post () after) :
    (jsonToFile object path).wp (answer envs) Allowed post system := by
  rw [jsonToFile]
  apply cJSONPrintUnformatted_wp held
  have printed : (system.add (.string value.write)).find (some system.places.length) =
      some (.string value.write) := find_places 0 rfl rfl
  apply writeFile_wp printed
  · intro fails
    have unwritten : system.tree.write path (ConfigurationTool.jsonToFile value) = none := fails
    rw [unwritten] at goesOn
    apply printf_wp
    intro after behind
    exact goesOn after _ ((Did.add system (.string value.write)).trans behind)
  · intro tree written
    have saved : system.tree.write path (ConfigurationTool.jsonToFile value) = some tree := written
    rw [saved] at goesOn
    have places : (system.places ++ [some (.string value.write)]) ++ [none] =
        system.places ++ [some (.string value.write), none] := List.append_assoc _ _ _
    apply free_wp (find_places 0 places rfl)
    refine goesOn _ [] ⟨rfl, rfl, rfl, ⟨[none, none], ?_, rfl⟩, (List.append_nil _).symm⟩
    simp only [System.put, System.add, places]
    exact put_taken system.places _ _

/-- What a default file that does not open leaves behind in memory. -/
def defaultLeaks (locations : Locations) (tree : FileTree) : List Kind :=
  if (tree.write locations.configFileLocation.bytes
      (ConfigurationTool.createDefaultConfigFile locations.rootDirectory)).isSome then []
  else [.json, .string]

theorem createDefaultConfigFile_wp {locations : Locations} {post : Unit → System → Prop}
    (goesOn : ∀ after text,
      Did system after (writeDefaultConfigFile locations system.tree)
        (defaultLeaks locations system.tree) text →
      post () after) :
    (createDefaultConfigFile locations).wp (answer envs) Allowed post system := by
  obtain ⟨value, same⟩ : ∃ value, value = defaultConfig locations.rootDirectory := ⟨_, rfl⟩
  have text : ConfigurationTool.createDefaultConfigFile locations.rootDirectory =
      cstr value.write := by rw [same]; rfl
  have next : (system.add (.json value)).places.length = system.places.length + 1 :=
    List.length_append
  have both : ((system.add (.json value)).add (.string value.write)).places =
      system.places ++ [some (.json value), some (.string value.write)] :=
    List.append_assoc _ _ _
  rw [writeDefaultConfigFile, defaultLeaks, text] at goesOn
  rw [createDefaultConfigFile, wp_bind]
  apply createObject_wp
  change Prog.wp _ _ _ _ (system.add (.json (defaultConfig locations.rootDirectory)))
  rw [← same]
  apply cJSONPrintUnformatted_wp (find_places 0 rfl rfl)
  simp only [System.fresh, next]
  apply writeFile_wp (find_places 1 both rfl)
  · intro fails
    have unwritten : system.tree.write locations.configFileLocation.bytes (cstr value.write) =
        none := fails
    rw [unwritten] at goesOn
    apply printf_wp
    intro after behind
    have object := Did.add system (.json value)
    have string := Did.add (system.add (.json value)) (.string value.write)
    exact goesOn after _ ((object.trans string).trans behind)
  · intro tree written
    have saved : system.tree.write locations.configFileLocation.bytes (cstr value.write) =
        some tree := written
    rw [saved] at goesOn
    have places : ((system.add (.json value)).add (.string value.write)).places ++ [none] =
        system.places ++ [some (.json value), some (.string value.write), none] := by
      rw [both, List.append_assoc]
      rfl
    rw [places]
    let closed : System := { (system.add (.json value)).add (.string value.write) with
      tree, places := system.places ++ [some (.json value), some (.string value.write), none] }
    have deleted : (closed.put (some system.places.length) none).places =
        system.places ++ [none, some (.string value.write), none] := put_taken _ _ _
    refine ⟨⟨value, find_places 0 rfl rfl⟩, ?_⟩
    apply free_wp (find_places 1 deleted rfl)
    refine goesOn _ [] ⟨rfl, rfl, rfl, ⟨[none, none, none], ?_, rfl⟩, (List.append_nil _).symm⟩
    rw [System.put, deleted]
    exact put_append system.places _ 1 none

/-- What reading the configuration leaves behind in memory. -/
def loadLeaks (file : Option Bytes) (residue : Bytes) : List Kind :=
  match file, ConfigurationTool.readToJson file residue with
  | none, _ => []
  | some _, none => [.buffer]
  | some _, some _ => [.buffer, .json]

/-- A pointer to a parsed text, or NULL for none. -/
def System.Parsed (system : System) (pointer : Pointer) : Option Json → Prop
  | none => pointer = none
  | some value => system.find pointer = some (.json value)

theorem readToJson_wp {path : Bytes} {post : Pointer → System → Prop}
    (plain : system.tree.lookup path ≠ some .directory)
    (goesOn : ∀ pointer after,
      Did system after system.tree
        (loadLeaks (system.tree.read path) (system.now envs).residue) [] →
      after.Parsed pointer
        (ConfigurationTool.readToJson (system.tree.read path) (system.now envs).residue) →
      post pointer after) :
    (readToJson path).wp (answer envs) Allowed post system := by
  rw [readToJson, perform_bind, wp_call]
  refine ⟨trivial, ?_⟩
  cases found : system.tree.lookup path with
  | none =>
      simp only [FileTree.read, found] at goesOn
      simp only [answer, found, Returned.nothing, Option.isNone_none, ↓reduceIte]
      exact ⟨trivial, goesOn none system (Did.refl system) rfl⟩
  | some node =>
      cases node with
      | directory => exact absurd found plain
      | file content =>
          obtain ⟨residue, heap⟩ : ∃ residue, residue = (system.now envs).residue := ⟨_, rfl⟩
          simp only [FileTree.read, found, ← heap] at goesOn
          simp only [answer, found, System.take, System.fresh, Option.isNone_some,
            Bool.false_eq_true, ↓reduceIte]
          apply ftell_wp (find_places 0 rfl rfl)
          apply readFile_wp rfl
          intro handed number
          let bytes : Resource := .buffer (content.length + 1) content residue
          let read : System := { system with places := system.places ++ [none, some bytes] }
          have same : (system.add (.reading (.file content))).now envs = system.now envs := rfl
          rw [number, same, ← heap]
          have buffer : read.find (some (system.places.length + 1)) = some bytes :=
            find_places 1 rfl rfl
          have did : Did system read system.tree [.buffer] [] :=
            ⟨rfl, rfl, rfl, ⟨_, rfl, rfl⟩, (List.append_nil _).symm⟩
          have text : ConfigurationTool.readToJson (some content) residue =
            Json.parse (cstr (content ++ residue)) := rfl
          apply cJSONParse_wp buffer
          · intro fails
            rw [fails] at text
            simp only [loadLeaks, text] at goesOn
            exact ⟨trivial, goesOn none read did rfl⟩
          · intro value parsed
            rw [parsed] at text
            simp only [loadLeaks, text] at goesOn
            exact goesOn _ _ (did.trans (Did.add read (.json value))) (find_places 0 rfl rfl)

/-- A part of the code that reads and changes nothing, with its result. -/
def Reads (envs : Nat → Env) (system : System) {α : Type}
    (code : ExceptT Fault (Prog Api Returned) α) (result : Except Fault α) : Prop :=
  ∀ post : Except Fault α → System → Prop, post result system →
    code.run.wp (answer envs) Allowed post system

theorem Reads.bind {α β : Type} {code : ExceptT Fault (Prog Api Returned) α}
    {result : Except Fault α} {next : α → ExceptT Fault (Prog Api Returned) β}
    {last : α → Except Fault β} (reads : Reads envs system code result)
    (goesOn : ∀ value, Reads envs system (next value) (last value)) :
    Reads envs system (code >>= next) (result >>= last) := by
  intro post holds
  change Prog.wp _ _ _ (code.run >>= _) system
  rw [wp_bind]
  apply reads
  cases result with
  | error fault => exact holds
  | ok value => exact goesOn value post holds

theorem reads_pure {α : Type} (result : Except Fault α) :
    Reads envs system (ExceptT.mk (pure result)) result := fun _ holds => holds

theorem getItem_reads {jData : Pointer} {json : Option Json} (parsed : system.Parsed jData json)
    (key : String) :
    Reads envs system (getItem jData key) (ConfigurationTool.getItem json key) := by
  intro post holds
  change (Prog.call (Api.cJSONGetObjectItem jData key) _).wp _ _ _ system
  rw [wp_call]
  cases json with
  | none =>
      obtain rfl : jData = none := parsed
      exact ⟨Or.inl rfl, holds⟩
  | some value =>
      have held : system.find jData = some (.json value) := parsed
      refine ⟨Or.inr ⟨value, held⟩, ?_⟩
      rw [answer, held]
      cases item : value.getObjectItem (ascii key) with
      | none =>
          simp only [ConfigurationTool.getItem, Option.bind_some, item] at holds
          simp only [item]
          exact holds
      | some found =>
          simp only [ConfigurationTool.getItem, Option.bind_some, item] at holds
          simp only [item]
          exact holds

theorem jsonToScftpStruct_reads {jData : Pointer} {json : Option Json}
    (parsed : system.Parsed jData json) :
    Reads envs system (jsonToScftpStruct jData) (ConfigurationTool.jsonToScftpStruct json) := by
  have item (key : String) :
      Reads envs system (getItem jData key) (ConfigurationTool.getItem json key) :=
    getItem_reads parsed key
  unfold jsonToScftpStruct ConfigurationTool.jsonToScftpStruct
  apply (item "name").bind
  intro name
  apply (reads_pure _).bind
  intro nameArray
  apply (item "root").bind
  intro root
  apply (reads_pure _).bind
  intro rootArray
  apply (item "port").bind
  intro port
  apply (item "encryption").bind
  intro encryption
  apply (item "max connections").bind
  intro connections
  apply (item "authentication").bind
  intro authentication
  apply (item "buffer size").bind
  intro size
  exact fun _ holds => holds

theorem load_wp {path : Bytes} {post : Except Fault ScftpData → System → Prop}
    (plain : system.tree.lookup path ≠ some .directory)
    (goesOn : ∀ after,
      Did system after system.tree
        (loadLeaks (system.tree.read path) (system.now envs).residue) [] →
      post (ConfigurationTool.load (system.tree.read path) (system.now envs).residue) after) :
    (load path).wp (answer envs) Allowed post system := by
  rw [load, wp_bind]
  apply readToJson_wp plain
  intro pointer after did parsed
  exact jsonToScftpStruct_reads parsed post (goesOn after did)

/-- The socket is given back whether or not the port can be bound. -/
theorem isPortAvailable_wp {port : Int32} {post : Option Bool → System → Prop}
    (goesOn : ∀ after, Did system after system.tree [] [] →
      post ((system.now envs).isPortAvailable port) after) :
    (isPortAvailable port).wp (answer envs) Allowed post system := by
  rw [isPortAvailable, perform_bind, wp_call]
  refine ⟨trivial, ?_⟩
  cases made : (system.now envs).socket with
  | false =>
      simp only [Env.isPortAvailable, made, Bool.false_eq_true, ↓reduceIte] at goesOn
      simp only [answer, made, Bool.false_eq_true, ↓reduceIte]
      exact ⟨trivial, goesOn system (Did.refl system)⟩
  | true =>
      simp only [Env.isPortAvailable, made, ↓reduceIte] at goesOn
      have held : (system.add .socket).find (some system.places.length) = some .socket :=
        find_places 0 rfl rfl
      have did : Did system ((system.add .socket).put (some system.places.length) none)
          system.tree [] [] :=
        ⟨rfl, rfl, rfl, ⟨[none], put_taken system.places _ none, rfl⟩, (List.append_nil _).symm⟩
      have result := goesOn _ did
      simp only [answer, made, ↓reduceIte, System.take]
      refine ⟨held, ?_⟩
      have same : (system.add .socket).now envs = system.now envs := rfl
      simp only [answer, same]
      cases bound : (system.now envs).bind port.toInt16.toUInt16 with
      | true =>
          rw [bound] at result
          exact ⟨held, result⟩
      | false =>
          rw [bound] at result
          exact ⟨held, result⟩

end Common

end Scftp.ConfigurationTool.Calls
