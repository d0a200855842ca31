import Scftp.ConfigurationTool.Dialogue
import Scftp.ConfigurationTool.Shown

set_option autoImplicit false

/- From what is typed to what is shown: a process and the dialogue of its user. -/
namespace Scftp.ConfigurationTool.Calls

open CString Feed Machine Program Program.Prog Stdin

/-- The host of a process, with the folders that start-up leaves. -/
def hostOf (started : FileTree) (free : UInt16 → Bool) (store : Int → Int32) : Host :=
  ⟨started.opendir, free, store⟩

/-- What the system has to answer besides the files. -/
structure Calm (free : UInt16 → Bool) (store : Int → Int32) (env : Env) : Prop where
  socket : env.socket = true
  bind : env.bind = free
  scanf : env.scanf = scanfInt store

section

variable {process : Process} {free : UInt16 → Bool} {store : Int → Int32} {started : FileTree}
  {pData : ScftpData}

/-- A file that loads can be written. -/
theorem answers_serve (calm : ∀ moment, Calm free store (process.envs moment))
    (loads : Loads (started.read process.path) pData) (moment : Nat) :
    (hostOf started free store).Serves (process.answers started moment) := by
  have held : ∃ content, started.read process.path = some content := by
    cases read : started.read process.path with
    | none =>
        rw [read] at loads
        cases loads []
    | some content => exact ⟨content, rfl⟩
  obtain ⟨content, read⟩ := held
  exact ⟨rfl, (calm moment).socket, (calm moment).bind, (calm moment).scanf,
    FileTree.write_of_read read []⟩

theorem process_at {locations : Locations} {moment : Nat} {outcome : Outcome Tool}
    (plain : process.tree.lookup process.path ≠ some .directory)
    (begun : startUp process.home.bytes process.tree = some (locations, started))
    (reached : toolRun (process.answers started) (process.tool started) moment = outcome) :
    (process.run moment).1.map (·.on process.path (process.run moment).2) = outcome :=
  (process_reached process plain moment begun).1.trans reached

theorem on_next {outcome : Outcome Locals} {system : System} {path : Bytes} {tool : Tool}
    (same : outcome.map (·.on path system) = .next tool) :
    ∃ locals, outcome = .next locals ∧ locals.on path system = tool := by
  cases outcome with
  | next locals => exact ⟨locals, rfl, Outcome.next.inj same⟩
  | exit locals => cases same
  | fault => cases same

theorem on_exit {outcome : Outcome Locals} {system : System} {path : Bytes} {tool : Tool}
    (same : outcome.map (·.on path system) = .exit tool) :
    ∃ locals, outcome = .exit locals ∧ locals.on path system = tool := by
  cases outcome with
  | next locals => cases same
  | exit locals => exact ⟨locals, rfl, Outcome.exit.inj same⟩
  | fault => cases same

theorem printsAt_of_unread {moment : Nat} {locals : Locals} {rest : Bytes}
    (reached : (process.run moment).1 = .next locals) (idle : locals.update = none)
    (unread : (process.run moment).2.stdin = rest) (next : ascii "print\n" <+: rest) :
    process.PrintsAt moment := by
  obtain ⟨later, rfl⟩ := next
  refine ⟨locals, reached, idle, ?_⟩
  have line : ascii "print\n" ++ later = ascii "print" ++ newline :: later := rfl
  have named : strcmp (ascii "print\n") (ascii "print\n") = true := by decide
  rw [unread, line, fgets_of_ne_nil _ _ (List.append_ne_nil_of_left_ne_nil (by decide) _),
    takeLine_line _ _ _ (by decide) (by decide)]
  exact named

/-- When its user has typed some lines a process shows what the dialogue has come to,
and a `print` behind them puts it on the screen. -/
theorem typed_followed {locations : Locations}
    (plain : process.tree.lookup process.path ≠ some .directory)
    (begun : startUp process.home.bytes process.tree = some (locations, started))
    (loads : Loads (started.read process.path) pData)
    (calm : ∀ moment, Calm free store (process.envs moment))
    {lines : List Bytes} {rest : Bytes} (unread : process.stdin = typed lines ++ rest)
    (suited : Suited (hostOf started free store).answer Suits lines ⟨pData.settings, none⟩) :
    match feed (hostOf started free store).answer lines ⟨pData.settings, none⟩ with
    | .next dialogue => ∃ moment locals, (process.run moment).1 = .next locals ∧
        Shows dialogue (locals.on process.path (process.run moment).2) ∧
          (dialogue.asked = none → (process.run moment).2.stdin = rest ∧
            (ascii "print\n" <+: rest → ∃ now : ScftpData, now.settings = dialogue.kept ∧
              process.printed moment = ruler ++ ascii "->" ++ shown now))
    | .exit dialogue => ∃ moment locals others, (process.run moment).1 = .exit locals ∧
        Shows dialogue (locals.on process.path (process.run moment).2) ∧
          others <:+ lines ∧ (process.run moment).2.stdin = typed others ++ rest
    | .fault => False := by
  have idle : (process.tool started).update = none := rfl
  have held : Loads (process.tool started).file pData := loads
  have begins : (process.tool started).stdin = typed lines ++ rest := unread
  have came := dialogue_followed (answers_serve calm loads) idle held begins suited
  cases result : feed (hostOf started free store).answer lines ⟨pData.settings, none⟩ with
  | next dialogue =>
      rw [result] at came
      obtain ⟨moment, tool, reached, shows, behind⟩ := came
      obtain ⟨locals, ran, rfl⟩ := on_next (process_at plain begun reached)
      refine ⟨moment, locals, ran, shows, fun closed => ⟨behind closed, fun next => ?_⟩⟩
      have idle : locals.update = none := by
        have asked := shows.asked
        rw [closed, Option.map_eq_none_iff] at asked
        exact asked
      obtain ⟨now, held, same⟩ := shows.kept
      have prints := printsAt_of_unread ran idle (behind closed) next
      exact ⟨now, same, printed_eq prints held⟩
  | exit dialogue =>
      rw [result] at came
      obtain ⟨moment, left, others, reached, shows, behind, remaining⟩ := came
      obtain ⟨locals, ran, rfl⟩ := on_exit (process_at plain begun reached)
      exact ⟨moment, locals, others, ran, shows, behind, remaining⟩
  | fault =>
      rw [result] at came
      exact came

end

/-- The lines of `updating`, up to its `print`. -/
def updatingLines : List Bytes :=
  ["update", "alice", "/h//", "8080", "0", "2", "600"].map ascii

def updatedSettings : Settings := ⟨ascii "alice\n", ascii "/h/", 8080, 0, 2, 512, 5⟩

theorem updating_typed : ∃ moment, ∃ now : ScftpData, now.settings = updatedSettings ∧
    updating.printed moment = ruler ++ ascii "->" ++ shown now := by
  obtain ⟨started, same, begun, read⟩ := updating_started
  have loads := loads_saved (ScftpData.default sampleRoot)
  rw [← read] at loads
  have unread : updating.stdin = typed updatingLines ++ ascii "print\n" := by decide
  have suited : Suited (hostOf started (fun _ => true) Int32.ofInt).answer Suits updatingLines
      ⟨(ScftpData.default sampleRoot).settings, none⟩ := by
    rw [same]
    decide +kernel
  have result : feed (hostOf started (fun _ => true) Int32.ofInt).answer updatingLines
      ⟨(ScftpData.default sampleRoot).settings, none⟩ = .next ⟨updatedSettings, none⟩ := by
    rw [same]
    decide +kernel
  have came := typed_followed plain_updating begun loads (fun _ => ⟨rfl, rfl, rfl⟩) unread suited
  rw [result] at came
  obtain ⟨moment, locals, _, _, behind⟩ := came
  obtain ⟨now, settings, printed⟩ := (behind rfl).2 (List.prefix_refl _)
  exact ⟨moment, now, settings, printed⟩

end Scftp.ConfigurationTool.Calls
