import Scftp.ConfigurationTool.Conduct

set_option autoImplicit false

/- The whole tool call by call: it does what its steps say, makes only calls that are
allowed, and what it never gives back is known exactly. -/
namespace Scftp.ConfigurationTool.Calls

open CString FileTree Ledger Machine Program Program.Prog Stdin

/-- What a step did: one read, and the rest as for a run of calls. -/
structure Turned (before after : System) (rest : Bytes) (tree : FileTree) (left : List Kind) :
    Prop where
  tree : after.tree = tree
  stdin : after.stdin = rest
  reads : after.reads = before.reads + 1
  held : ∃ more, after.places = before.places ++ more ∧ (Ledger.held more).map Resource.kind = left

/-- The state of the tool that its variables and the system make up. -/
def Locals.on (locals : Locals) (path : Bytes) (system : System) : Tool :=
  ⟨system.stdin, locals.arrCCommand, system.tree.read path, locals.update⟩

/-- The answers of the system when the files decide what opens. -/
def filed (env : Env) (path : Bytes) (tree : FileTree) : Env :=
  { env with opendir := tree.opendir, fopen := (tree.write path []).isSome }

/-- The file was written again, or not. -/
def Rewritten (path : Bytes) (before after : FileTree) : Prop :=
  after = before ∨ ∃ content, before.write path content = some after

@[simp] theorem scanf_filed (env : Env) (path : Bytes) (tree : FileTree) :
    (filed env path tree).scanf = env.scanf := rfl

@[simp] theorem isPortAvailable_filed (env : Env) (path : Bytes) (tree : FileTree) (port : Int32) :
    (filed env path tree).isPortAvailable port = env.isPortAvailable port := rfl

@[simp] theorem residue_filed (env : Env) (path : Bytes) (tree : FileTree) :
    (filed env path tree).residue = env.residue := rfl

/-- What a step leaves behind in memory. -/
def stepLeaks (env : Env) (tool : Tool) : List Kind :=
  match tool.update with
  | none =>
      if strcmp tool.command (ascii "print\n") || strcmp tool.command (ascii "update\n") then
        loadLeaks tool.file env.residue
      else []
  | some update =>
      match update.prompt with
      | .bufferSize =>
          if (env.scanf tool.stdin).1.getD 0 < 1 then [] else .json :: writeLeaks env.fopen
      | _ => []

section Steps

variable {envs : Nat → Env} {system : System} {locals : Locals} {update : Update} {path : Bytes}

def System.behind (system : System) (rest : Bytes) : System :=
  { system with stdin := rest, reads := system.reads + 1 }

theorem Did.turned {after : System} {rest text : Bytes} {tree : FileTree} {left : List Kind}
    (did : Did (system.behind rest) after tree left text) : Turned system after rest tree left :=
  ⟨did.tree, did.stdin, did.reads, did.held⟩

theorem Turned.on {after : System} {rest : Bytes} {tree : FileTree} {left : List Kind}
    (turned : Turned system after rest tree left) (locals : Locals) :
    locals.on path after = ⟨rest, locals.arrCCommand, tree.read path, locals.update⟩ := by
  rw [Locals.on, turned.stdin, turned.tree]

theorem Turned.trans {middle after : System} {rest text : Bytes} {tree later : FileTree}
    {left more : List Kind} (turned : Turned system middle rest tree left)
    (did : Did middle after later more text) : Turned system after rest later (left ++ more) := by
  obtain ⟨places, grown, kinds⟩ := turned.held
  obtain ⟨others, further, same⟩ := did.held
  refine ⟨did.tree, did.stdin.trans turned.stdin, did.reads.trans turned.reads,
    places ++ others, ?_, ?_⟩
  · rw [further, grown, List.append_assoc]
  · rw [held_append, List.map_append, kinds, same]

theorem Turned.prompted {after : System} {rest text : Bytes} {tree : FileTree} {left : List Kind}
    (turned : Turned (system.shows text) after rest tree left) :
    Turned system after rest tree left :=
  ⟨turned.tree, turned.stdin, turned.reads, turned.held⟩

theorem Turned.at {after : System} {rest : Bytes} {tree : FileTree} {left : List Kind}
    (turned : Turned system after rest tree left) (locals : Locals) (update : Update) :
    (locals.at update).map (·.on path after) =
      .next ⟨rest, locals.arrCCommand, tree.read path, some update⟩ :=
  congrArg Outcome.next (turned.on { locals with update := some update })

theorem fgets_wp {buffer : Bytes} {size : Nat}
    {next : Returned → Prog Api Returned (Outcome Locals)} {post : Outcome Locals → System → Prop}
    (goesOn : ∀ read : Returned, read.line = (fgets buffer size system.stdin).1 →
      (next read).wp (answer envs) Allowed post
        (system.behind (fgets buffer size system.stdin).2)) :
    (perform (.fgets buffer size) >>= next).wp (answer envs) Allowed post system :=
  ⟨trivial, goesOn _ rfl⟩

theorem scanf_wp {next : Returned → Prog Api Returned (Outcome Locals)}
    {post : Outcome Locals → System → Prop}
    (goesOn : ∀ read : Returned, read.number = ((envs system.reads).scanf system.stdin).1 →
      (next read).wp (answer envs) Allowed post
        (system.behind ((envs system.reads).scanf system.stdin).2)) :
    (perform .scanf >>= next).wp (answer envs) Allowed post system :=
  ⟨trivial, goesOn _ rfl⟩

theorem prompt_wp {text : Bytes} {next : Prog Api Returned (Outcome Locals)}
    {post : Outcome Locals → System → Prop}
    (goesOn : next.wp (answer envs) Allowed post (system.shows text)) :
    (printf text >>= fun _ => next).wp (answer envs) Allowed post system := ⟨trivial, goesOn⟩

/-- The printing at the end of a step. -/
theorem ends_wp {middle : System} {text : Bytes} {outcome : Outcome Locals}
    {post : Outcome Locals → System → Prop}
    (goesOn : ∀ after, Did middle after middle.tree [] text → post outcome after) :
    (printf text >>= fun _ => pure outcome).wp (answer envs) Allowed post middle := by
  rw [wp_bind]
  exact printf_wp goesOn

/-- A loop is left with what it took and the ruler. -/
theorem passes_wp {middle : System} {text : Bytes} {outcome : Outcome Locals}
    {post : Outcome Locals → System → Prop}
    (goesOn : ∀ after, Did middle after middle.tree [] (text ++ ruler) → post outcome after) :
    (printf text >>= fun _ => printf ruler >>= fun _ => pure outcome).wp (answer envs) Allowed post
      middle := by
  rw [wp_bind]
  apply printf_wp
  intro shown first
  apply ends_wp
  intro after second
  exact goesOn after (first.trans (first.tree ▸ second))

variable (path)

theorem nameStep_wp {post : Outcome Locals → System → Prop}
    (goesOn : ∀ outcome after, Turned system after (fgets [] 64 system.stdin).2 system.tree [] →
      outcome.map (·.on path after) = ConfigurationTool.nameStep (locals.on path system) update →
      post outcome after) :
    (nameStep locals update).wp (answer envs) Allowed post system := by
  apply fgets_wp
  intro read line
  simp only [ConfigurationTool.nameStep, Locals.on, ← line] at goesOn
  by_cases short : strlen read.line ≤ 1
  · simp only [short, ↓reduceIte] at goesOn ⊢
    apply ends_wp
    intro after did
    exact goesOn _ after did.turned (did.turned.at locals update)
  · simp only [short, ↓reduceIte] at goesOn ⊢
    cases copied : (strcpy read.line : Option (CharArray 64)) with
    | none =>
        rw [copied] at goesOn
        exact goesOn .fault _ (Did.turned (Did.refl _)) rfl
    | some name =>
        rw [copied] at goesOn
        apply passes_wp
        intro after did
        exact goesOn _ after did.turned (did.turned.at locals _)

theorem rootStep_wp {env : Env} {post : Outcome Locals → System → Prop}
    (goesOn : ∀ outcome after, Turned system after (fgets [] 128 system.stdin).2 system.tree [] →
      outcome.map (·.on path after) =
        ConfigurationTool.rootStep (filed env path system.tree) (locals.on path system) update →
      post outcome after) :
    (rootStep locals update).wp (answer envs) Allowed post system := by
  apply fgets_wp
  intro read line
  simp only [ConfigurationTool.rootStep, Locals.on, ← line] at goesOn
  by_cases short : strlen read.line ≤ 1
  · simp only [short, ↓reduceIte] at goesOn ⊢
    apply ends_wp
    intro after did
    exact goesOn _ after did.turned (did.turned.at locals update)
  · simp only [short, ↓reduceIte] at goesOn ⊢
    cases cut : cutLast read.line with
    | none =>
        rw [cut] at goesOn
        exact goesOn .fault _ (Did.turned (Did.refl _)) rfl
    | some folder =>
        simp only [cut, filed] at goesOn
        simp only
        rw [wp_bind]
        apply checkFolderExist_wp
        intro checked text first
        have behind : (system.behind (fgets [] 128 system.stdin).2).tree = system.tree := rfl
        rw [ConfigurationTool.checkFolderExist, behind]
        cases opens : system.tree.opendir folder with
        | false =>
            simp only [opens, Bool.false_eq_true, ↓reduceIte] at goesOn ⊢
            apply ends_wp
            intro after second
            have turned := (first.trans (first.tree ▸ second)).turned
            exact goesOn _ after turned (turned.at locals update)
        | true =>
            have there : exist ≠ notExist := by decide
            simp only [opens, there, ↓reduceIte] at goesOn ⊢
            cases again : cutLast folder with
            | none =>
                rw [again] at goesOn
                exact goesOn .fault checked first.turned rfl
            | some shorter =>
                simp only [again] at goesOn ⊢
                cases copied : (strcpy shorter : Option (CharArray 128)) with
                | none =>
                    rw [copied] at goesOn
                    exact goesOn .fault checked first.turned rfl
                | some root =>
                    rw [copied] at goesOn
                    apply passes_wp
                    intro after second
                    have turned := (first.trans (first.tree ▸ second)).turned
                    exact goesOn _ after turned (turned.at locals _)

theorem portStep_wp {post : Outcome Locals → System → Prop}
    (goesOn : ∀ outcome after,
      Turned system after ((envs system.reads).scanf system.stdin).2 system.tree [] →
      outcome.map (·.on path after) =
        ConfigurationTool.portStep (filed (envs system.reads) path system.tree)
          (locals.on path system) update →
      post outcome after) :
    (portStep locals update).wp (answer envs) Allowed post system := by
  apply scanf_wp
  intro read number
  simp only [ConfigurationTool.portStep, Locals.on, scanf_filed, isPortAvailable_filed, ← number]
    at goesOn
  by_cases zero : read.number.getD update.iBuffer = 0
  · simp only [zero, ↓reduceIte] at goesOn ⊢
    apply ends_wp
    intro after did
    exact goesOn _ after did.turned (did.turned.at locals _)
  · simp only [zero, ↓reduceIte] at goesOn ⊢
    rw [wp_bind]
    apply isPortAvailable_wp
    intro asked first
    have same : (system.behind ((envs system.reads).scanf system.stdin).2).now envs =
        envs system.reads := rfl
    rw [same]
    cases available : (envs system.reads).isPortAvailable (read.number.getD update.iBuffer) with
    | none =>
        rw [available] at goesOn
        apply goesOn (.exit locals) asked first.turned
        exact congrArg Outcome.exit (first.turned.on locals)
    | some free =>
        rw [available] at goesOn
        cases free with
        | false =>
            apply ends_wp
            intro after second
            have turned := (first.trans (first.tree ▸ second)).turned
            exact goesOn _ after turned (turned.at locals _)
        | true =>
            apply passes_wp
            intro after second
            have turned := (first.trans (first.tree ▸ second)).turned
            exact goesOn _ after turned (turned.at locals _)

theorem authenticationStep_wp {post : Outcome Locals → System → Prop}
    (goesOn : ∀ outcome after,
      Turned system after ((envs system.reads).scanf system.stdin).2 system.tree [] →
      outcome.map (·.on path after) =
        ConfigurationTool.authenticationStep (filed (envs system.reads) path system.tree)
          (locals.on path system) update →
      post outcome after) :
    (authenticationStep locals update).wp (answer envs) Allowed post system := by
  apply scanf_wp
  intro read number
  simp only [ConfigurationTool.authenticationStep, Locals.on, scanf_filed, ← number] at goesOn
  apply ends_wp
  intro after did
  exact goesOn _ after did.turned (did.turned.at locals _)

theorem encryptionStep_wp {post : Outcome Locals → System → Prop}
    (goesOn : ∀ outcome after,
      Turned system after ((envs system.reads).scanf system.stdin).2 system.tree [] →
      outcome.map (·.on path after) =
        ConfigurationTool.encryptionStep (filed (envs system.reads) path system.tree)
          (locals.on path system) update →
      post outcome after) :
    (encryptionStep locals update).wp (answer envs) Allowed post system := by
  apply scanf_wp
  intro read number
  simp only [ConfigurationTool.encryptionStep, Locals.on, scanf_filed, ← number] at goesOn
  by_cases level : read.number.getD 0 = 0 ∨ read.number.getD 0 = 1 ∨ read.number.getD 0 = 2 ∨
      read.number.getD 0 = 3
  · simp only [level, ↓reduceIte] at goesOn ⊢
    apply ends_wp
    intro after did
    exact goesOn _ after did.turned (did.turned.at locals _)
  · simp only [level, ↓reduceIte] at goesOn ⊢
    have turned := Did.turned (Did.refl (system.behind ((envs system.reads).scanf system.stdin).2))
    exact goesOn _ _ turned (turned.at locals _)

/-- The save takes an object and a text, and gives back the text if the file opens. -/
theorem save_wp (pData : ScftpData) {outcome : Outcome Locals}
    {post : Outcome Locals → System → Prop}
    (goesOn : ∀ after text,
      Did system after ((system.tree.write path pData.saved).getD system.tree)
        (.json :: writeLeaks (system.tree.write path pData.saved).isSome) text →
      post outcome after) :
    (createJsonHandle pData.name.toStr pData.root.toStr pData.port pData.encryptionLevel
        pData.maxConnections pData.bufferSize pData.authentication >>= fun jData =>
      jsonToFile jData path >>= fun _ => pure outcome).wp (answer envs) Allowed post system := by
  rw [wp_bind]
  apply createObject_wp
  change Prog.wp _ _ _ _ (system.add (.json pData.handle))
  rw [wp_bind]
  apply jsonToFile_wp (find_places 0 rfl rfl)
  intro after text did
  exact goesOn after _ ((Did.add system (.json pData.handle)).trans did)

theorem bufferSizeStep_wp {post : Outcome Locals → System → Prop}
    (goesOn : ∀ outcome after tree,
      Turned system after ((envs system.reads).scanf system.stdin).2 tree
        (if ((envs system.reads).scanf system.stdin).1.getD 0 < 1 then []
          else .json :: writeLeaks (filed (envs system.reads) path system.tree).fopen) →
      Rewritten path system.tree tree →
      outcome.map (·.on path after) =
        ConfigurationTool.bufferSizeStep (filed (envs system.reads) path system.tree)
          (locals.on path system) update →
      post outcome after) :
    (bufferSizeStep locals update path).wp (answer envs) Allowed post system := by
  apply scanf_wp
  intro read number
  simp only [ConfigurationTool.bufferSizeStep, Locals.on, scanf_filed, ← number] at goesOn
  by_cases small : read.number.getD 0 < 1
  · simp only [small, ↓reduceIte] at goesOn ⊢
    apply ends_wp
    intro after did
    exact goesOn _ after _ did.turned (Or.inl rfl) (did.turned.at locals _)
  · simp only [small, ↓reduceIte] at goesOn ⊢
    obtain ⟨pData, revised⟩ : ∃ pData, pData = { update.pData with
      bufferSize := if 512 < read.number.getD 0 then 512 else read.number.getD 0 } := ⟨_, rfl⟩
    apply save_wp path { update.pData with
      bufferSize := if 512 < read.number.getD 0 then 512 else read.number.getD 0 }
    intro after text did
    rw [← revised] at did
    simp only [← revised] at goesOn
    have turned := did.turned
    have opens : (filed (envs system.reads) path system.tree).fopen =
        (system.tree.write path pData.saved).isSome := write_isSome [] pData.saved
    rw [opens] at goesOn
    change Turned system after _ ((system.tree.write path pData.saved).getD system.tree)
      (.json :: writeLeaks (system.tree.write path pData.saved).isSome) at turned
    cases written : system.tree.write path pData.saved with
    | none =>
        simp only [written, Option.isSome_none, Option.getD_none] at goesOn turned
        exact goesOn _ after _ turned (Or.inl rfl) (congrArg Outcome.next (turned.on _))
    | some tree =>
        simp only [written, Option.isSome_some, Option.getD_some] at goesOn turned
        have saved : tree.read path = some pData.saved := by
          rw [FileTree.read, lookup_write written]
        have left : ({ locals with update := none } : Locals).on path after =
            ⟨((envs system.reads).scanf system.stdin).2, locals.arrCCommand, some pData.saved,
              none⟩ := by
          rw [turned.on, saved]
        exact goesOn _ after _ turned (Or.inr ⟨_, written⟩) (congrArg Outcome.next left)

variable {path}

/-- What a step of the program is to the step of the tool. -/
structure Follows (envs : Nat → Env) (path : Bytes) (system : System) (locals : Locals)
    (outcome : Outcome Locals) (after : System) : Prop where
  outcome : outcome.map (·.on path after) =
    toolStep (filed (envs system.reads) path system.tree) (locals.on path system)
  tree : Rewritten path system.tree after.tree
  reads : after.reads = system.reads + 1
  held : ∃ more, after.places = system.places ++ more ∧ (Ledger.held more).map Resource.kind =
    stepLeaks (filed (envs system.reads) path system.tree) (locals.on path system)

theorem Turned.follows {outcome : Outcome Locals} {after : System} {rest : Bytes}
    {tree : FileTree} {left : List Kind} (turned : Turned system after rest tree left)
    (rewritten : Rewritten path system.tree tree)
    (same : outcome.map (·.on path after) =
      toolStep (filed (envs system.reads) path system.tree) (locals.on path system))
    (leaks : left =
      stepLeaks (filed (envs system.reads) path system.tree) (locals.on path system)) :
    Follows envs path system locals outcome after :=
  ⟨same, turned.tree ▸ rewritten, turned.reads, leaks ▸ turned.held⟩

theorem updateStep_wp {post : Outcome Locals → System → Prop}
    (running : locals.update = some update)
    (goesOn : ∀ outcome after, Follows envs path system locals outcome after →
      post outcome after) :
    (updateStep locals update path).wp (answer envs) Allowed post system := by
  have step (env : Env) : toolStep env (locals.on path system) =
      ConfigurationTool.updateStep env (locals.on path system) update :=
    toolStep_running env _ update running
  have leaks (env : Env) : stepLeaks env (locals.on path system) =
      match update.prompt with
      | .bufferSize =>
          if (env.scanf system.stdin).1.getD 0 < 1 then [] else .json :: writeLeaks env.fopen
      | _ => [] := by
    simp only [stepLeaks, Locals.on, running]
  let answers := filed (envs system.reads) path system.tree
  unfold ConfigurationTool.updateStep at step
  apply prompt_wp
  cases prompt : update.prompt with
  | name =>
      simp only [prompt] at step leaks
      apply nameStep_wp path
      intro outcome after turned same
      exact goesOn outcome after
        (turned.prompted.follows (Or.inl rfl) (same.trans (step answers).symm) (leaks answers).symm)
  | root =>
      simp only [prompt] at step leaks
      apply rootStep_wp path
      intro outcome after turned same
      exact goesOn outcome after
        (turned.prompted.follows (Or.inl rfl) (same.trans (step answers).symm) (leaks answers).symm)
  | port =>
      simp only [prompt] at step leaks
      apply portStep_wp path
      intro outcome after turned same
      exact goesOn outcome after
        (turned.prompted.follows (Or.inl rfl) (same.trans (step answers).symm) (leaks answers).symm)
  | authentication =>
      simp only [prompt] at step leaks
      apply authenticationStep_wp path
      intro outcome after turned same
      exact goesOn outcome after
        (turned.prompted.follows (Or.inl rfl) (same.trans (step answers).symm) (leaks answers).symm)
  | encryption =>
      simp only [prompt] at step leaks
      apply encryptionStep_wp path
      intro outcome after turned same
      exact goesOn outcome after
        (turned.prompted.follows (Or.inl rfl) (same.trans (step answers).symm) (leaks answers).symm)
  | bufferSize =>
      simp only [prompt] at step leaks
      apply bufferSizeStep_wp path
      intro outcome after tree turned rewritten same
      exact goesOn outcome after
        (turned.prompted.follows rewritten (same.trans (step answers).symm) (leaks answers).symm)

/-- The command that was read, on the tool behind the read. -/
def afterCommand (residue : Bytes) (tool : Tool) : Outcome Tool :=
  if strcmp tool.arrCCommand (ascii "print\n") then
    match ConfigurationTool.load tool.file residue with
    | .error _ => .fault
    | .ok _ => .next tool
  else if strcmp tool.arrCCommand (ascii "update\n") then
    match ConfigurationTool.load tool.file residue with
    | .error _ => .fault
    | .ok pData => .next { tool with update := some ⟨.name, 0, pData⟩ }
  else if strcmp tool.arrCCommand (ascii "exit\n") then .exit tool
  else .next tool

theorem Did.on {after : System} {left : List Kind} {text : Bytes}
    (did : Did system after system.tree left text) (locals : Locals) :
    locals.on path after = locals.on path system := by
  rw [Locals.on, Locals.on, did.stdin, did.tree]

theorem commands_wp {post : Outcome Locals → System → Prop}
    (plain : system.tree.lookup path ≠ some .directory)
    (goesOn : ∀ outcome after text,
      Did system after system.tree
        (if strcmp locals.arrCCommand (ascii "print\n") ||
            strcmp locals.arrCCommand (ascii "update\n") then
          loadLeaks (system.tree.read path) (system.now envs).residue
        else []) text →
      outcome.map (·.on path after) =
        afterCommand (system.now envs).residue (locals.on path system) →
      post outcome after) :
    (commands locals path).wp (answer envs) Allowed post system := by
  unfold afterCommand at goesOn
  unfold commands
  cases print : strcmp locals.arrCCommand (ascii "print\n") with
  | true =>
      simp only [Locals.on, print, Bool.true_or, ↓reduceIte] at goesOn ⊢
      rw [wp_bind]
      apply load_wp plain
      intro read first
      cases loaded : ConfigurationTool.load (system.tree.read path) (system.now envs).residue with
      | error fault =>
          rw [loaded] at goesOn
          exact goesOn .fault read _ first rfl
      | ok pData =>
          rw [loaded] at goesOn
          apply ends_wp
          intro after second
          have did := first.trans (first.tree ▸ second)
          rw [List.append_nil] at did
          exact goesOn _ after _ did (congrArg Outcome.next (did.on locals))
  | false =>
      cases update : strcmp locals.arrCCommand (ascii "update\n") with
      | true =>
          simp only [Locals.on, print, update, Bool.false_or, Bool.false_eq_true, ↓reduceIte]
            at goesOn ⊢
          rw [wp_bind]
          apply load_wp plain
          intro read first
          cases loaded : ConfigurationTool.load (system.tree.read path)
              (system.now envs).residue with
          | error fault =>
              rw [loaded] at goesOn
              exact goesOn .fault read _ first rfl
          | ok pData =>
              rw [loaded] at goesOn
              apply prompt_wp
              apply passes_wp
              intro after second
              have did := first.trans (first.tree ▸ (Did.shows read _).trans second)
              rw [List.append_nil, List.append_nil] at did
              let called : Locals := { locals with update := some ⟨.name, 0, pData⟩ }
              exact goesOn _ after _ did (congrArg Outcome.next (did.on called))
      | false =>
          simp only [Locals.on, print, update, Bool.false_or, Bool.false_eq_true, ↓reduceIte]
            at goesOn ⊢
          cases exits : strcmp locals.arrCCommand (ascii "exit\n") with
          | true =>
              simp only [exits, ↓reduceIte] at goesOn ⊢
              exact ⟨trivial, goesOn _ _ _ (Did.refl system) rfl⟩
          | false =>
              simp only [exits, Bool.false_eq_true, ↓reduceIte] at goesOn ⊢
              have quiet (after : System) (text : Bytes)
                  (did : Did system after system.tree [] text) : post (.next locals) after :=
                goesOn _ after _ did (congrArg Outcome.next (did.on locals))
              split
              · exact ⟨trivial, quiet _ _ (Did.refl system)⟩
              · split
                · exact ends_wp fun after did => quiet after _ did
                · split
                  · exact quiet _ _ (Did.refl system)
                  · exact ends_wp fun after did => quiet after _ did

/-- A command's step is its read and the command. -/
theorem toolStep_idle (env : Env) {tool : Tool} (idle : tool.update = none) :
    toolStep env tool = afterCommand env.residue tool.commanded := by
  simp only [toolStep, idle]
  rfl

theorem commandStep_wp {post : Outcome Locals → System → Prop} (idle : locals.update = none)
    (plain : system.tree.lookup path ≠ some .directory)
    (goesOn : ∀ outcome after, Follows envs path system locals outcome after →
      post outcome after) :
    (commandStep locals path).wp (answer envs) Allowed post system := by
  have waits : (locals.on path system).update = none := idle
  apply prompt_wp
  apply prompt_wp
  apply fgets_wp
  intro read line
  apply commands_wp
  · exact plain
  intro outcome after text did same
  rw [line] at same
  have turned : Turned system after _ system.tree _ := did.turned.prompted.prompted
  rw [line] at turned
  apply goesOn
  apply turned.follows (Or.inl rfl)
  · rw [same, toolStep_idle _ waits]
    rfl
  · simp only [stepLeaks, waits]
    rfl

theorem mainStep_wp {post : Outcome Locals → System → Prop}
    (plain : system.tree.lookup path ≠ some .directory)
    (goesOn : ∀ outcome after, Follows envs path system locals outcome after →
      post outcome after) :
    (mainStep locals path).wp (answer envs) Allowed post system := by
  unfold mainStep
  cases running : locals.update with
  | none => exact commandStep_wp running plain goesOn
  | some update => exact updateStep_wp running goesOn

end Steps

end Scftp.ConfigurationTool.Calls
