import Scftp.ConfigurationTool.Rounds

set_option autoImplicit false

/- The four numbers `update` asks for. The port is checked with its low 16 bits
only, and no result of `scanf` is looked at. -/
namespace Scftp.ConfigurationTool

open CString Machine Stdin

/-- A system on which some ports are occupied. Port 0 stands for any free one. -/
def Env.ports (occupied : UInt16 → Bool) (env : Env) : Env :=
  { env with bind := fun port => port = 0 || !occupied port }

def htons (port : Int32) : UInt16 := port.toInt16.toUInt16

/-- A port number that is not occupied, and is the one that is tried. -/
structure Free (occupied : UInt16 → Bool) (port : Int32) : Prop where
  low : 1 ≤ port.toInt
  high : port.toInt ≤ 65535
  tried : (htons port).toNat = port.toInt
  free : occupied (htons port) = false

/-- What `i_buffer` holds after the read of the port prompt. -/
def portRead (env : Env) (tool : Tool) (update : Update) : Int32 :=
  (env.scanf tool.stdin).1.getD update.iBuffer

/-- At the port prompt, all but free ports are refused and asked for again. -/
def AsksAgain (occupied : UInt16 → Bool) (env : Env) (tool : Tool) : Prop :=
  ∀ update, tool.update = some update → update.prompt = .port →
    ¬ Free occupied (portRead env tool update) →
      ∃ after, toolStep env tool = .next after ∧ after.At .port

/-- The check of a port says what it should: the port is 0, or in range, or its
low 16 bits are those of an occupied port. What is to be refused needs a socket. -/
def Checkable (occupied : UInt16 → Bool) (env : Env) (tool : Tool) : Prop :=
  ∀ update, tool.update = some update → update.prompt = .port →
    let port := portRead env tool update
    port = 0 ∨
      (1 ≤ port.toInt ∧ port.toInt ≤ 65535 ∧ (occupied (htons port) = false ∨ env.socket = true)) ∨
      (htons port ≠ 0 ∧ occupied (htons port) = true ∧ env.socket = true)

theorem htons_toNat (port : Int32) : (htons port).toNat = (port.toInt % 65536).toNat := by
  have narrow := Int32.toInt_toInt16 port
  have low : (htons port).toNat = port.toInt16.toBitVec.toNat := rfl
  have whole : port.toInt16.toInt = port.toInt16.toBitVec.toInt := rfl
  rw [whole, BitVec.toInt_eq_toNat_bmod] at narrow
  have small := port.toInt16.toBitVec.isLt
  have residues := congrArg (· % ((2 ^ 16 : Nat) : Int)) narrow
  rw [Int.bmod_emod, Int.bmod_emod] at residues
  omega

theorem free_iff (occupied : UInt16 → Bool) (port : Int32) :
    Free occupied port ↔
      1 ≤ port.toInt ∧ port.toInt ≤ 65535 ∧ occupied (htons port) = false := by
  constructor
  · intro free
    exact ⟨free.low, free.high, free.free⟩
  · rintro ⟨low, high, free⟩
    have tried := htons_toNat port
    exact ⟨low, high, by omega, free⟩

theorem htons_ne_zero {port : Int32} (low : 1 ≤ port.toInt) (high : port.toInt ≤ 65535) :
    htons port ≠ 0 := by
  intro zero
  have tried := htons_toNat port
  rw [zero] at tried
  have none : (0 : UInt16).toNat = 0 := rfl
  omega

section Port

variable {occupied : UInt16 → Bool} {env : Env} {tool : Tool} {update : Update}

theorem ports_available (port : Int32) :
    (env.ports occupied).isPortAvailable port =
      if env.socket then some (htons port = 0 || !occupied (htons port)) else none := rfl

theorem portStep_again_iff (prompt : update.prompt = .port) :
    (∃ after, portStep env tool update = .next after ∧ after.At .port) ↔
      portRead env tool update = 0 ∨
        env.isPortAvailable (portRead env tool update) = some false := by
  have read : (env.scanf tool.stdin).1.getD update.iBuffer = portRead env tool update := rfl
  simp only [portStep, read]
  by_cases zero : portRead env tool update = 0
  · rw [if_pos zero]
    exact iff_of_true ⟨_, rfl, _, rfl, prompt⟩ (Or.inl zero)
  · rw [if_neg zero, or_iff_right zero]
    cases available : env.isPortAvailable (portRead env tool update) with
    | none => simp
    | some bound =>
        cases bound with
        | false => exact iff_of_true ⟨_, rfl, _, rfl, prompt⟩ rfl
        | true =>
            apply iff_of_false _ (by simp)
            rintro ⟨after, stepped, next, running, stands⟩
            cases stepped
            cases running
            cases stands

theorem asksAgain_iff :
    AsksAgain occupied (env.ports occupied) tool ↔
      Checkable occupied (env.ports occupied) tool := by
  apply forall_congr'
  intro update
  apply imp_congr_right
  intro running
  apply imp_congr_right
  intro prompt
  rw [toolStep_running _ tool update running, updateStep, prompt]
  simp only
  rw [portStep_again_iff prompt, ports_available, free_iff]
  have socket : (env.ports occupied).socket = env.socket := rfl
  rw [socket]
  generalize portRead (env.ports occupied) tool update = port
  by_cases zero : port = 0
  · simp [zero]
  · by_cases inside : 1 ≤ port.toInt ∧ port.toInt ≤ 65535
    · have nonzero := htons_ne_zero inside.1 inside.2
      cases occupied (htons port) <;> cases env.socket <;> simp [zero, inside, nonzero]
    · rw [← and_assoc, ← and_assoc]
      cases occupied (htons port) <;> cases env.socket <;> simp [zero, inside]

end Port

theorem written_free {occupied : Nat → UInt16 → Bool} {envs : Nat → Env} {start : Tool}
    {last : Prompt → Nat}
    (asks : AllSteps (fun moment => toolStep ((envs moment).ports (occupied moment))) start
      fun moment => AsksAgain (occupied moment) ((envs moment).ports (occupied moment)))
    (written : Written (fun moment => (envs moment).ports (occupied moment)) start last) :
    ∃ pData, Loads (fileAt (toolRun (fun moment => (envs moment).ports (occupied moment)) start)
        (last .bufferSize + 1)) pData ∧ Free (occupied (last .port)) pData.port := by
  obtain ⟨pData, filed, decided⟩ := written.decided
  refine ⟨pData, by rw [filed]; exact loads_saved pData, ?_⟩
  obtain ⟨tool, update, stands, read⟩ := decided.port
  by_contra refused
  rw [← read] at refused
  obtain ⟨after, stepped, still⟩ := asks (last .port) tool stands.reached update stands.running
    stands.prompt refused
  obtain ⟨before, during⟩ := written.completed.stays .port .authentication rfl
  obtain ⟨next, passed, moved⟩ := during (last .port + 1) (by omega) (by omega)
  have reached := moved.reached
  rw [toolRun_succ stands.reached, stepped] at reached
  cases reached
  obtain ⟨same, running, prompt⟩ := still
  rw [moved.running] at running
  cases running
  rw [moved.prompt] at prompt
  cases prompt

/-- Whatever is entered and whichever ports are occupied: written ports are free
ones, and all others are asked for again, exactly when the check says what it
should in every round of the port prompt. -/
theorem ports_free_iff (occupied : Nat → UInt16 → Bool) (envs : Nat → Env) (start : Tool) :
    let envs := fun moment => (envs moment).ports (occupied moment)
    let step := fun moment => toolStep (envs moment)
    (∀ last, Written envs start last →
        ∃ pData, Loads (fileAt (toolRun envs start) (last .bufferSize + 1)) pData ∧
          Free (occupied (last .port)) pData.port) ∧
      AllSteps step start (fun moment => AsksAgain (occupied moment) (envs moment)) ↔
    AllSteps step start fun moment => Checkable (occupied moment) (envs moment) := by
  intro envs step
  constructor
  · rintro ⟨_, asks⟩ moment tool reached
    exact asksAgain_iff.mp (asks moment tool reached)
  · intro checkable
    have asks : AllSteps step start fun moment => AsksAgain (occupied moment) (envs moment) :=
      fun moment tool reached => asksAgain_iff.mpr (checkable moment tool reached)
    exact ⟨fun last written => written_free asks written, asks⟩

def unoccupied : Env := willing.ports fun _ => false

theorem accepts_unoccupied : Accepts unoccupied :=
  ⟨rfl, rfl, rfl, by decide, rfl, rfl⟩

/-- The port 73616 is accepted and written: what is tried is 8080. -/
theorem port_too_large :
    ∃ pData, Loads (fileAt (toolRun (fun _ => unoccupied) careless) 7) pData ∧
      pData.port = 73616 ∧ htons pData.port = 8080 ∧ ¬ Free (fun _ => false) pData.port ∧
      Written (fun _ => unoccupied) careless firstRounds := by
  obtain ⟨reached, written⟩ := careless_written accepts_unoccupied
  rw [fileAt_of_reached (reached 7 (by decide))]
  refine ⟨_, loads_saved _, rfl, by decide, ?_, written⟩
  intro free
  exact absurd free.high (by decide)

/- Numbers that were read. -/
section Numbers

variable {store : Int → Int32} {envs : Nat → Env} {start : Tool} {last : Prompt → Nat}

def converted (store : Int → Int32) (run : Nat → Outcome Tool) (moment : Nat) : Option Int32 :=
  (scanfInt store (unread run moment)).1

theorem unread_succ {prompt next : Prompt} {moment : Nat} {tool later : Tool}
    {update entered : Update} (stands : Stands (toolRun envs start) prompt moment tool update)
    (moved : Stands (toolRun envs start) next (moment + 1) later entered) :
    unread (toolRun envs start) (moment + 1) =
      prompt.rest (envs moment) (unread (toolRun envs start) moment) := by
  have stepped := moved.reached
  rw [toolRun_succ stands.reached] at stepped
  have leaves := leaves_of_next (envs moment) tool update stands.running stepped
  rw [stands.unread_eq, moved.unread_eq, ← stands.prompt]
  exact leaves.stdin_eq

theorem Completed.at_number (completed : Completed (toolRun envs start) last) (moment : Nat)
    (late : last .root < moment) (early : moment ≤ last .bufferSize) :
    ∃ prompt tool update, Stands (toolRun envs start) prompt moment tool update ∧
      ∀ env stdin, prompt.rest env stdin = (env.scanf stdin).2 := by
  have port := (completed.stays .root .port rfl).2 moment late
  have authentication := (completed.stays .port .authentication rfl).2 moment
  have encryption := (completed.stays .authentication .encryption rfl).2 moment
  have bufferSize := (completed.stays .encryption .bufferSize rfl).2 moment
  by_cases first : moment ≤ last .port
  · obtain ⟨tool, update, stands⟩ := port first
    exact ⟨_, tool, update, stands, fun _ _ => rfl⟩
  · by_cases second : moment ≤ last .authentication
    · obtain ⟨tool, update, stands⟩ := authentication (by omega) second
      exact ⟨_, tool, update, stands, fun _ _ => rfl⟩
    · by_cases third : moment ≤ last .encryption
      · obtain ⟨tool, update, stands⟩ := encryption (by omega) third
        exact ⟨_, tool, update, stands, fun _ _ => rfl⟩
      · obtain ⟨tool, update, stands⟩ := bufferSize (by omega) early
        exact ⟨_, tool, update, stands, fun _ _ => rfl⟩

/-- Until a call that is written has come to its end there is something for
`scanf` to take: what it cannot take now it cannot take at the last prompt, which
only a number passes. -/
theorem Written.taken
    (written : Written (fun moment => (envs moment).standard store) start last) (moment : Nat)
    (late : last .root < moment) (early : moment ≤ last .bufferSize) :
    Taken (unread (toolRun (fun moment => (envs moment).standard store) start) moment) := by
  induction remaining : last .bufferSize - moment generalizing moment with
  | zero =>
      obtain rfl : moment = last .bufferSize := by omega
      obtain ⟨pData, _, decided⟩ := written.decided
      obtain ⟨size, read, _, _⟩ := decided.bufferSize
      by_contra untaken
      rw [(scanf_idle store (envs (last .bufferSize)) untaken).1] at read
      cases read
  | succ remaining ih =>
      obtain ⟨prompt, tool, update, stands, rest⟩ := written.completed.at_number moment late early
      obtain ⟨next, later, entered, moved, _⟩ :=
        written.completed.at_number (moment + 1) (by omega) (by omega)
      have taken := ih (moment + 1) (by omega) (by omega) (by omega)
      rw [unread_succ stands moved, rest] at taken
      by_contra untaken
      apply untaken
      have same : (((envs moment).standard store).scanf (unread (toolRun
          (fun moment => (envs moment).standard store) start) moment)).2 =
          unread (toolRun (fun moment => (envs moment).standard store) start) moment := by
        rw [standard_scanf, scanfInt_untaken store untaken]
      rwa [same] at taken

theorem Written.converted_iff
    (written : Written (fun moment => (envs moment).standard store) start last) (moment : Nat)
    (late : last .root < moment) (early : moment < last .bufferSize) :
    (∃ value, converted store (toolRun (fun moment => (envs moment).standard store) start) moment =
        some value) ↔
      loneSign (unread (toolRun (fun moment => (envs moment).standard store) start) moment) =
        false := by
  set run := toolRun (fun moment => (envs moment).standard store) start
  constructor
  · rintro ⟨value, read⟩
    by_contra lone
    rw [Bool.not_eq_false] at lone
    rw [converted, loneSign_stores store lone] at read
    cases read
  · intro alone
    by_contra missing
    rw [not_exists] at missing
    have none : (scanfInt store (unread run moment)).1 = none := by
      cases read : (scanfInt store (unread run moment)).1 with
      | none => rfl
      | some value => exact absurd read (missing value)
    obtain ⟨prompt, tool, update, stands, rest⟩ :=
      written.completed.at_number moment late (by omega)
    obtain ⟨next, later, entered, moved, _⟩ :=
      written.completed.at_number (moment + 1) (by omega) (by omega)
    have taken := written.taken (moment + 1) (by omega) (by omega)
    rw [unread_succ stands moved, rest] at taken
    rw [loneSign_of_none store none taken] at alone
    cases alone

/-- In a call that is written, every number it asked for was read at its own
prompt's last round, exactly when none of the first three found a sign that
stands alone. -/
theorem numbers_read_iff (store : Int → Int32) (envs : Nat → Env) (start : Tool)
    (last : Prompt → Nat)
    (written : Written (fun moment => (envs moment).standard store) start last) :
    let run := toolRun (fun moment => (envs moment).standard store) start
    (∃ pData authentication size, Loads (fileAt run (last .bufferSize + 1)) pData ∧
        converted store run (last .port) = some pData.port ∧
        converted store run (last .authentication) = some authentication ∧
        pData.authentication = (if 1 ≤ authentication then 1 else 0) ∧
        converted store run (last .encryption) = some pData.encryptionLevel ∧
        converted store run (last .bufferSize) = some size ∧
        pData.bufferSize = if 512 < size then 512 else size) ↔
      loneSign (unread run (last .port)) = false ∧
        loneSign (unread run (last .authentication)) = false ∧
        loneSign (unread run (last .encryption)) = false := by
  intro run
  have port := (written.completed.stays .root .port rfl).1
  have authentication := (written.completed.stays .port .authentication rfl).1
  have encryption := (written.completed.stays .authentication .encryption rfl).1
  have bufferSize := (written.completed.stays .encryption .bufferSize rfl).1
  rw [← written.converted_iff (last .port) port (by omega),
    ← written.converted_iff (last .authentication) (by omega) (by omega),
    ← written.converted_iff (last .encryption) (by omega) (by omega)]
  constructor
  · rintro ⟨pData, switch, size, _, ported, switched, _, levelled, _⟩
    exact ⟨⟨_, ported⟩, ⟨_, switched⟩, ⟨_, levelled⟩⟩
  · rintro ⟨⟨value, ported⟩, ⟨switch, switched⟩, ⟨level, levelled⟩⟩
    obtain ⟨pData, filed, decided⟩ := written.decided
    obtain ⟨size, sized, _, capped⟩ := decided.bufferSize
    refine ⟨pData, switch, size, by rw [filed]; exact loads_saved pData, ?_, switched, ?_, ?_,
      sized, capped⟩
    · obtain ⟨tool, update, stands, read⟩ := decided.port
      rw [converted, stands.unread_eq] at ported ⊢
      rw [standard_scanf, ported, Option.getD_some] at read
      rw [ported, read]
    · have read := decided.authentication
      rw [standard_scanf] at read
      rwa [show (scanfInt store (unread run (last .authentication))).1 = some switch from switched,
        Option.getD_some] at read
    · have read := decided.encryptionLevel
      rw [standard_scanf] at read
      rw [show (scanfInt store (unread run (last .encryption))).1 = some level from levelled,
        Option.getD_some] at read
      rw [levelled, read]

theorem accepts_willing : Accepts willing := ⟨rfl, rfl, rfl, rfl, rfl, rfl⟩

theorem answering_numbers_read :
    ∃ pData authentication size,
      Loads (fileAt (toolRun (fun _ => willing) answering) 7) pData ∧
        converted Int32.ofInt (toolRun (fun _ => willing) answering) 3 = some pData.port ∧
        converted Int32.ofInt (toolRun (fun _ => willing) answering) 4 = some authentication ∧
        pData.authentication = (if 1 ≤ authentication then 1 else 0) ∧
        converted Int32.ofInt (toolRun (fun _ => willing) answering) 5 =
          some pData.encryptionLevel ∧
        converted Int32.ofInt (toolRun (fun _ => willing) answering) 6 = some size ∧
        pData.bufferSize = if 512 < size then 512 else size := by
  obtain ⟨reached, written⟩ := answering_written accepts_willing
  have exact (count : Nat) (within : count ≤ 7) :
      unread (toolRun (fun _ => willing) answering) count = (answeringTools count).stdin :=
    unread_of_reached (reached count within)
  apply (numbers_read_iff Int32.ofInt (fun _ => willing) answering firstRounds written).mpr
  refine ⟨?_, ?_, ?_⟩
  · exact (congrArg loneSign (exact 3 (by decide))).trans (by decide)
  · exact (congrArg loneSign (exact 4 (by decide))).trans (by decide)
  · exact (congrArg loneSign (exact 5 (by decide))).trans (by decide)

/-- A sign alone turns authentication off: no number is read for it. -/
theorem authentication_turned_off :
    ∃ pData, Loads (fileAt (toolRun (fun _ => willing) careless) 7) pData ∧
      (ScftpData.default sampleRoot).authentication = 1 ∧ pData.authentication = 0 ∧
      converted Int32.ofInt (toolRun (fun _ => willing) careless) 4 = none ∧
      Written (fun _ => willing) careless firstRounds := by
  obtain ⟨reached, written⟩ := careless_written accepts_willing
  rw [fileAt_of_reached (reached 7 (by decide)), converted,
    unread_of_reached (reached 4 (by decide))]
  exact ⟨_, loads_saved _, rfl, rfl, by decide, written⟩

end Numbers

end Scftp.ConfigurationTool
