import CloudBackup.Config.Template
import Mathlib.Logic.Relation

/-!
The browser of the client, in which files are picked for a restore. It lists one directory at a
time, page by page. A page is fetched while the keys go on working, and arrives as a message.

When the directory changes, the list has nothing but the row `..`, and the cursor is already
placed on the row after it, which comes with the first page. Until then there is no row under the
cursor. And a page does not say which directory it is of.
-/

namespace CloudBackup.Client.Browse

open Config

/-! ### The model -/

structure Entry where
  path : Str
  parent : Str
  isDir : Bool
  size : ℕ
  isParent : Bool
  deriving DecidableEq, Repr

structure PageMsg where
  entries : List Entry
  next : Str
  err : Option Str
  deriving DecidableEq, Repr

structure Model where
  cwd : Str
  stack : List Str
  entries : List Entry
  nextTok : Str
  loading : Bool
  cursor : ℤ
  selected : Str → Bool
  width : ℤ
  height : ℤ
  status : Str
  err : Option Str
  cancelled : Bool
  done : Bool

def initialModel : Model where
  cwd := []
  stack := []
  entries := []
  nextTok := []
  loading := true
  cursor := 0
  selected := fun _ => false
  width := 0
  height := 0
  status := []
  err := none
  cancelled := false
  done := false

structure Request where
  cwd : Str
  nextToken : Str
  deriving DecidableEq, Repr

inductive Cmd
  | none
  | quit
  | fetch (req : Request)
  deriving DecidableEq, Repr

def Cmd.requests : Cmd → List Request
  | .fetch req => [req]
  | _ => []

namespace Model

def fetchCmd (m : Model) (nextToken : Str) : Cmd := .fetch ⟨m.cwd, nextToken⟩

def upRow : Entry := ⟨"..".toList, [], true, 0, true⟩

def resetForCwd (m : Model) : Model :=
  let m := { m with entries := [], nextTok := [], cursor := 0, loading := true, status := [] }
  if m.cwd ≠ [] then { m with entries := [upRow], cursor := 1 } else m

def goUp (m : Model) : Model × Cmd :=
  match m.stack with
  | [] => (m, .none)
  | top :: stack =>
      let m := { m with cwd := top, stack := stack }.resetForCwd
      (m, m.fetchCmd [])

/-- `m.entries[m.cursor]`. -/
def entryAtCursor (m : Model) : Option Entry := if 0 ≤ m.cursor then m.entries[m.cursor.toNat]? else none

/-- `Enter` on the row of a directory. -/
def descend (m : Model) (path : Str) : Model × Cmd :=
  let m := { m with stack := m.cwd :: m.stack, cwd := path }.resetForCwd
  (m, m.fetchCmd [])

end Model

/-! ### Update -/

inductive KeyAction
  | quit
  | up
  | down
  | pageUp
  | pageDown
  | home
  | last
  | toggle
  | enter
  | back
  | nextPage
  | finish
  | help
  | nothing
  deriving DecidableEq, Repr

def keyAction : String → KeyAction
  | "ctrl+c" | "q" | "esc" => .quit
  | "up" | "k" => .up
  | "down" | "j" => .down
  | "pgup" => .pageUp
  | "pgdown" => .pageDown
  | "home" | "g" => .home
  | "end" | "G" => .last
  | " " => .toggle
  | "enter" => .enter
  | "backspace" | "left" | "h" | "u" => .back
  | "n" => .nextPage
  | "d" => .finish
  | "?" => .help
  | _ => .nothing

def keysStatus : Str :=
  "Keys: ↑/↓ move, space select, enter descend, backspace up, n next page, d done, q cancel".toList

/-- `strings.Contains(m.status, "Keys:")`. -/
def showsKeys (status : Str) : Bool := status.tails.any fun rest => rest.take 5 = "Keys:".toList

inductive Msg
  | windowSize (width height : ℤ)
  | page (msg : PageMsg)
  | key (k : String)
  deriving DecidableEq, Repr

def Model.updateKey (m : Model) : KeyAction → Option (Model × Cmd)
  | .quit => some ({ m with cancelled := true }, .quit)
  | .up => some ({ m with cursor := if m.cursor > 0 then m.cursor - 1 else m.cursor }, .none)
  | .down => some ({ m with cursor := if m.cursor < m.entries.length - 1 then m.cursor + 1 else m.cursor }, .none)
  | .pageUp => some ({ m with cursor := max (m.cursor - 10) 0 }, .none)
  | .pageDown =>
      some ({ m with
        cursor := if m.cursor + 10 ≥ m.entries.length then max (m.entries.length - 1) 0 else m.cursor + 10 }, .none)
  | .home => some ({ m with cursor := 0 }, .none)
  | .last => some ({ m with cursor := max (m.entries.length - 1) 0 }, .none)
  | .toggle =>
      if m.entries = [] then some (m, .none)
      else
        m.entryAtCursor.map fun e =>
          if e.isParent then (m, .none)
          else ({ m with selected := Function.update m.selected e.path !m.selected e.path }, .none)
  | .enter =>
      if m.entries = [] then some (m, .none)
      else
        m.entryAtCursor.map fun e =>
          if e.isParent then m.goUp
          else if !e.isDir then (m, .none)
          else m.descend e.path
  | .back => some m.goUp
  | .nextPage =>
      if m.nextTok ≠ [] && !m.loading then some ({ m with loading := true }, m.fetchCmd m.nextTok)
      else some (m, .none)
  | .finish => some ({ m with done := true }, .quit)
  | .help => some ({ m with status := if showsKeys m.status then [] else keysStatus }, .none)
  | .nothing => some (m, .none)

def Model.updatePage (m : Model) (msg : PageMsg) : Model × Cmd :=
  if msg.err.isSome then ({ m with loading := false, err := msg.err }, .quit)
  else
    let entries := m.entries ++ msg.entries
    ({ m with
      loading := false
      entries := entries
      nextTok := msg.next
      cursor := if m.cursor ≥ entries.length then 0 else m.cursor }, .none)

def Model.update (m : Model) : Msg → Option (Model × Cmd)
  | .windowSize width height => some ({ m with width := width, height := height }, .none)
  | .page msg => some (m.updatePage msg)
  | .key k => m.updateKey (keyAction k)

/-- The rows that `View` draws, from the first number and up to the second. -/
def Model.viewRange (m : Model) : ℤ × ℤ :=
  let maxRows := max (m.height - 7) 5
  let start := if m.cursor ≥ maxRows then m.cursor - maxRows + 1 else 0
  (start, min (start + maxRows) m.entries.length)

theorem Model.viewRange_within (m : Model) {i : ℤ} (hfirst : m.viewRange.1 ≤ i) (hlast : i < m.viewRange.2) :
    0 ≤ i ∧ i < m.entries.length := by
  simp only [viewRange] at hfirst hlast
  split at hfirst <;> omega

/-! ### Runs -/

/-- The model, and what was asked for and has not yet arrived. -/
structure State where
  model : Model
  pending : List Request

/-- After `Init`. -/
def State.start : State := ⟨initialModel, (initialModel.fetchCmd []).requests⟩

section

-- what a listing of a directory may have
variable (lists : Str → Entry → Prop)

inductive Step : State → Msg → State → Prop
  | window {s m cmd} (width height : ℤ) (h : s.model.update (.windowSize width height) = some (m, cmd)) :
      Step s (.windowSize width height) ⟨m, s.pending ++ cmd.requests⟩
  | key {s m cmd} (k : String) (h : s.model.update (.key k) = some (m, cmd)) :
      Step s (.key k) ⟨m, s.pending ++ cmd.requests⟩
  /-- The pages arrive in any order. -/
  | page {s l req r m cmd} (msg : PageMsg) (hpending : s.pending = l ++ req :: r)
      (hlists : ∀ e ∈ msg.entries, lists req.cwd e) (h : s.model.update (.page msg) = some (m, cmd)) :
      Step s (.page msg) ⟨m, l ++ r ++ cmd.requests⟩

def Reachable : State → Prop := Relation.ReflTransGen (fun s s' => ∃ msg, Step lists s msg s') State.start

end

/-! ### What is to hold -/

def Model.Indexed (m : Model) : Prop := m.entries = [] ∨ 0 ≤ m.cursor ∧ m.cursor < m.entries.length

/-- All rows but `..` are of the current directory. -/
def Model.Current (lists : Str → Entry → Prop) (m : Model) : Prop :=
  ∀ e ∈ m.entries, e.isParent = false → lists m.cwd e

structure Model.Valid (lists : Str → Entry → Prop) (m : Model) : Prop where
  indexed : m.Indexed
  noPanic : ∀ msg, m.update msg ≠ none
  current : m.Current lists

/-- The message is `Enter`, on the row of a directory whose path is not empty. -/
def Model.enters (m : Model) (msg : Msg) : Prop :=
  ∃ k e, msg = .key k ∧ keyAction k = .enter ∧ m.entryAtCursor = some e ∧ e.isParent = false ∧ e.isDir = true ∧
    e.path ≠ []

/-- What the messages lead to if no directory is entered. -/
def RootReachable (lists : Str → Entry → Prop) : State → Prop :=
  Relation.ReflTransGen (fun s s' => ∃ msg, ¬ s.model.enters msg ∧ Step lists s msg s') State.start

/-! ### The cursor -/

/-- The first page of a directory is to come: there is only the row `..`, and the cursor is not on it. -/
structure Model.Waiting (m : Model) : Prop where
  cwd : m.cwd ≠ []
  entries : m.entries = [Model.upRow]
  cursor : m.cursor = 1

/-- The cursor is on a row, or at the begin of no rows, or it waits for the row. -/
structure Model.Placed (m : Model) : Prop where
  nonneg : 0 ≤ m.cursor
  placed : m.cursor < m.entries.length ∨ m.cursor = 0 ∧ m.entries = [] ∨ m.Waiting

section

open Model

variable {m m' : Model} {cmd : Cmd}

theorem Model.Placed.indexed_or_waiting (h : m.Placed) : m.Indexed ∨ m.Waiting := by
  rcases h.placed with hlt | ⟨-, hnone⟩ | hwaiting
  · exact .inl (.inr ⟨h.nonneg, hlt⟩)
  · exact .inl (.inl hnone)
  · exact .inr hwaiting

/-- To move the cursor to a row, or to the begin. -/
theorem placed_move (m : Model) {cursor : ℤ} (hnonneg : 0 ≤ cursor) (h : cursor < m.entries.length ∨ cursor = 0) :
    Placed { m with cursor := cursor } where
  nonneg := hnonneg
  placed := by
    rcases h with hlt | hzero
    · exact .inl hlt
    · rcases List.eq_nil_or_concat m.entries with hnone | ⟨init, last, hsome⟩
      · exact .inr (.inl ⟨hzero, hnone⟩)
      · refine .inl ?_
        simp only [hzero, hsome, List.concat_eq_append, List.length_append, List.length_singleton]
        omega

/-- What else is in the model has no part in it. -/
theorem Model.Placed.congr (h : m.Placed) (hcwd : m'.cwd = m.cwd) (hentries : m'.entries = m.entries)
    (hcursor : m'.cursor = m.cursor) : m'.Placed where
  nonneg := hcursor ▸ h.nonneg
  placed := by
    rw [hcursor, hentries]
    exact h.placed.imp_right (Or.imp_right fun hw =>
      ⟨hcwd ▸ hw.cwd, hentries.trans hw.entries, hcursor.trans hw.cursor⟩)

theorem placed_resetForCwd (m : Model) : m.resetForCwd.Placed := by
  rw [resetForCwd]
  by_cases hcwd : m.cwd = []
  · rw [if_neg (by simpa using hcwd)]
    exact ⟨le_rfl, .inr (.inl ⟨rfl, rfl⟩)⟩
  · rw [if_pos (by simpa using hcwd)]
    exact ⟨by simp, .inr (.inr ⟨hcwd, rfl, rfl⟩)⟩

theorem Model.Placed.goUp (h : m.Placed) : m.goUp.1.Placed := by
  rw [Model.goUp]
  cases m.stack with
  | nil => exact h
  | cons top stack => exact placed_resetForCwd _

inductive Effect (m : Model) : Msg → Model → Cmd → Prop
  /-- Neither the directory nor the rows nor the cursor change. -/
  | kept {msg m' cmd} (hcwd : m'.cwd = m.cwd) (hstack : m'.stack = m.stack) (hentries : m'.entries = m.entries)
      (hcursor : m'.cursor = m.cursor) (hcmd : ∀ req ∈ cmd.requests, req.cwd = m.cwd) : Effect m msg m' cmd
  | moved {msg} {cursor : ℤ} (hnonneg : 0 ≤ cursor) (hplace : cursor < m.entries.length ∨ cursor = 0) :
      Effect m msg { m with cursor := cursor } .none
  | arrived {msg : PageMsg} (hok : msg.err = none) : Effect m (.page msg) (m.updatePage msg).1 .none
  | wentUp {msg top stack} (hstack : m.stack = top :: stack) : Effect m msg m.goUp.1 (.fetch ⟨top, []⟩)
  | descended {msg e} (hrow : m.entryAtCursor = some e) (hparent : e.isParent = false) (hdir : e.isDir = true)
      (hkey : ∃ k, msg = .key k ∧ keyAction k = .enter) : Effect m msg (m.descend e.path).1 (.fetch ⟨e.path, []⟩)

theorem Effect.silent {msg : Msg} (hcwd : m'.cwd = m.cwd) (hstack : m'.stack = m.stack)
    (hentries : m'.entries = m.entries) (hcursor : m'.cursor = m.cursor) (hnone : cmd.requests = []) :
    Effect m msg m' cmd :=
  .kept hcwd hstack hentries hcursor (by simp [hnone])

theorem Effect.of_goUp {msg : Msg} (h : m.goUp = (m', cmd)) : Effect m msg m' cmd := by
  obtain rfl : m.goUp.1 = m' := congrArg Prod.fst h
  obtain rfl : m.goUp.2 = cmd := congrArg Prod.snd h
  cases hstack : m.stack with
  | nil =>
      have hsame : m.goUp = (m, .none) := by rw [goUp, hstack]
      rw [hsame]
      exact .silent rfl rfl rfl rfl rfl
  | cons top stack =>
      have hcmd : m.goUp.2 = .fetch ⟨top, []⟩ := by
        simp only [goUp, hstack, fetchCmd, resetForCwd]
        split <;> rfl
      rw [hcmd]
      exact .wentUp hstack

theorem Effect.of_descend {k : String} {e : Entry} (haction : keyAction k = .enter) (hrow : m.entryAtCursor = some e)
    (hparent : e.isParent = false) (hdir : e.isDir = true) (h : m.descend e.path = (m', cmd)) :
    Effect m (.key k) m' cmd := by
  have hcmd : (m.descend e.path).2 = .fetch ⟨e.path, []⟩ := by
    simp only [descend, fetchCmd, resetForCwd]
    split <;> rfl
  obtain rfl : (m.descend e.path).1 = m' := congrArg Prod.fst h
  obtain rfl : .fetch ⟨e.path, []⟩ = cmd := hcmd.symm.trans (congrArg Prod.snd h)
  exact .descended hrow hparent hdir ⟨k, rfl, haction⟩

/-- To enter a row is to go up, or down, or nothing. -/
theorem Effect.of_enter {k : String} (haction : keyAction k = .enter) (hupdate : m.updateKey .enter = some (m', cmd)) :
    Effect m (.key k) m' cmd := by
  have hkept : Effect m (.key k) m .none := .silent rfl rfl rfl rfl rfl
  rw [updateKey] at hupdate
  split at hupdate
  · cases hupdate
    exact hkept
  · obtain ⟨e, hrow, hresult⟩ := Option.map_eq_some_iff.mp hupdate
    by_cases hparent : e.isParent = true
    · exact .of_goUp (by rwa [if_pos hparent] at hresult)
    · rw [if_neg hparent] at hresult
      cases hdir : e.isDir with
      | false =>
          rw [hdir] at hresult
          cases hresult
          exact hkept
      | true =>
          rw [hdir] at hresult
          exact .of_descend haction hrow (by simpa using hparent) hdir hresult

theorem Model.Placed.effect_key (h : m.Placed) {k : String} {action : KeyAction} (haction : keyAction k = action)
    (hupdate : m.updateKey action = some (m', cmd)) : Effect m (.key k) m' cmd := by
  have hnonneg := h.nonneg
  have hrows : m.cursor < m.entries.length ∨ m.cursor ≤ 1 := by
    rcases h.placed with hlt | ⟨hzero, -⟩ | hwaiting
    · exact .inl hlt
    · exact .inr (by omega)
    · exact .inr hwaiting.cursor.le
  have hkept : Effect m (.key k) m .none := .silent rfl rfl rfl rfl rfl
  cases action with
  | quit =>
      cases hupdate
      exact .silent rfl rfl rfl rfl rfl
  | up =>
      cases hupdate
      refine .moved ?_ ?_ <;> split <;> omega
  | down =>
      cases hupdate
      by_cases hlt : m.cursor < m.entries.length - 1
      · rw [if_pos hlt]
        exact .moved (by omega) (.inl (by omega))
      · rw [if_neg hlt]
        exact hkept
  | pageUp =>
      cases hupdate
      exact .moved (le_max_right _ _) (by omega)
  | pageDown =>
      cases hupdate
      refine .moved ?_ ?_ <;> split <;> omega
  | home =>
      cases hupdate
      exact .moved le_rfl (.inr rfl)
  | last =>
      cases hupdate
      exact .moved (le_max_right _ _) (by omega)
  | toggle =>
      rw [updateKey] at hupdate
      split at hupdate
      · cases hupdate
        exact hkept
      · obtain ⟨e, -, hresult⟩ := Option.map_eq_some_iff.mp hupdate
        split at hresult
        · cases hresult
          exact hkept
        · cases hresult
          exact .silent rfl rfl rfl rfl rfl
  | enter => exact .of_enter haction hupdate
  | back => exact .of_goUp (Option.some.inj hupdate)
  | nextPage =>
      rw [updateKey] at hupdate
      split at hupdate
      · cases hupdate
        exact .kept rfl rfl rfl rfl (by simp [Cmd.requests, fetchCmd])
      · cases hupdate
        exact hkept
  | finish =>
      cases hupdate
      exact .silent rfl rfl rfl rfl rfl
  | help =>
      cases hupdate
      exact .silent rfl rfl rfl rfl rfl
  | nothing =>
      cases hupdate
      exact hkept

theorem Model.Placed.effect (h : m.Placed) {msg : Msg} (hupdate : m.update msg = some (m', cmd)) :
    Effect m msg m' cmd := by
  cases msg with
  | windowSize width height =>
      cases hupdate
      exact .silent rfl rfl rfl rfl rfl
  | page p =>
      obtain hpage : m.updatePage p = (m', cmd) := Option.some.inj hupdate
      cases herr : p.err with
      | none =>
          have hcmd : (m.updatePage p).2 = .none := by simp [updatePage, herr]
          rw [hpage] at hcmd
          obtain rfl : cmd = .none := hcmd
          obtain rfl : (m.updatePage p).1 = m' := by rw [hpage]
          exact .arrived herr
      | some e =>
          simp only [updatePage, herr, Option.isSome_some, if_true, Prod.mk.injEq] at hpage
          obtain ⟨rfl, rfl⟩ := hpage
          exact .silent rfl rfl rfl rfl rfl
  | key k => exact h.effect_key rfl hupdate

theorem Model.Placed.of_effect (h : m.Placed) {msg : Msg} (heffect : Effect m msg m' cmd) : m'.Placed := by
  cases heffect with
  | kept hcwd hstack hentries hcursor hcmd => exact h.congr hcwd hentries hcursor
  | moved hnonneg hplace => exact placed_move m hnonneg hplace
  | @arrived p hok =>
      rw [updatePage, if_neg (by simp [hok])]
      by_cases hcursor : m.cursor ≥ (m.entries ++ p.entries).length
      · simp only [if_pos hcursor]
        exact placed_move { m with entries := m.entries ++ p.entries, loading := false, nextTok := p.next } le_rfl
          (.inr rfl)
      · simp only [if_neg hcursor]
        exact placed_move { m with entries := m.entries ++ p.entries, loading := false, nextTok := p.next } h.nonneg
          (.inl (not_le.mp hcursor))
  | wentUp hstack => exact h.goUp
  | descended hrow hparent hdir hkey => exact placed_resetForCwd _

/-! ### What panics -/

theorem Model.Placed.entryAtCursor_eq_none_iff (h : m.Placed) (hrows : m.entries ≠ []) :
    m.entryAtCursor = none ↔ m.Waiting := by
  rw [entryAtCursor, if_pos h.nonneg, List.getElem?_eq_none_iff]
  constructor
  · intro hlen
    have hnonneg := h.nonneg
    rcases h.placed with hlt | ⟨-, hnone⟩ | hwaiting
    · omega
    · exact absurd hnone hrows
    · exact hwaiting
  · intro hwaiting
    rw [hwaiting.entries, hwaiting.cursor]
    rfl

/-- Only a row is picked or entered where there may be none. -/
theorem Model.Placed.update_eq_none_iff (h : m.Placed) (msg : Msg) :
    m.update msg = none ↔ m.Waiting ∧ ∃ k, msg = .key k ∧ (keyAction k = .toggle ∨ keyAction k = .enter) := by
  constructor
  · intro hnone
    cases msg with
    | windowSize width height => cases hnone
    | page p => cases hnone
    | key k =>
        have hpick : m.entries ≠ [] ∧ m.entryAtCursor = none ∧ (keyAction k = .toggle ∨ keyAction k = .enter) := by
          rw [update] at hnone
          cases haction : keyAction k with
          | toggle =>
              rw [haction, updateKey] at hnone
              split at hnone
              · cases hnone
              · exact ⟨‹_›, Option.map_eq_none_iff.mp hnone, .inl rfl⟩
          | enter =>
              rw [haction, updateKey] at hnone
              split at hnone
              · cases hnone
              · exact ⟨‹_›, Option.map_eq_none_iff.mp hnone, .inr rfl⟩
          | nextPage =>
              rw [haction, updateKey] at hnone
              split at hnone <;> cases hnone
          | _ => simp [haction, updateKey] at hnone
        exact ⟨(h.entryAtCursor_eq_none_iff hpick.1).mp hpick.2.1, k, rfl, hpick.2.2⟩
  · rintro ⟨hwaiting, k, rfl, haction⟩
    have hrows : m.entries ≠ [] := by simp [hwaiting.entries]
    have hnone : m.entryAtCursor = none := (h.entryAtCursor_eq_none_iff hrows).mpr hwaiting
    rcases haction with haction | haction
    · simp [update, haction, updateKey, hrows, hnone]
    · simp [update, haction, updateKey, hrows, hnone]

/-! ### What is listed -/

variable {lists : Str → Entry → Prop}

@[simp] theorem Model.resetForCwd_cwd (m : Model) : m.resetForCwd.cwd = m.cwd := by
  rw [resetForCwd]
  split <;> rfl

@[simp] theorem Model.resetForCwd_stack (m : Model) : m.resetForCwd.stack = m.stack := by
  rw [resetForCwd]
  split <;> rfl

theorem Model.current_resetForCwd (m : Model) : m.resetForCwd.Current lists := by
  intro e he hparent
  rw [resetForCwd] at he
  split at he
  · obtain rfl : e = upRow := List.mem_singleton.mp he
    cases hparent
  · cases he

/-- A page that arrives is to be of the current directory. It does not say if it is. -/
theorem Model.Current.updatePage_iff (h : m.Current lists) {p : PageMsg} (hok : p.err = none) :
    (m.updatePage p).1.Current lists ↔ ∀ e ∈ p.entries, e.isParent = false → lists m.cwd e := by
  rw [updatePage, if_neg (by simp [hok])]
  constructor
  · intro hcurrent e he
    exact hcurrent e (List.mem_append_right _ he)
  · intro hpage e he
    rcases List.mem_append.mp he with hold | hnew
    · exact h e hold
    · exact hpage e hnew

theorem Model.Current.of_effect {msg : Msg} (h : m.Current lists) (heffect : Effect m msg m' cmd)
    (hpage : ∀ p, msg = .page p → ∀ e ∈ p.entries, lists m.cwd e) : m'.Current lists := by
  cases heffect with
  | kept hcwd hstack hentries hcursor hcmd =>
      intro e he
      rw [hcwd]
      exact h e (hentries ▸ he)
  | moved hnonneg hplace => exact h
  | @arrived p hok => exact (h.updatePage_iff hok).mpr fun e he _ => hpage p rfl e he
  | @wentUp msg top stack hstack =>
      rw [goUp, hstack]
      exact current_resetForCwd _
  | descended hrow hparent hdir hkey => exact current_resetForCwd _

/-! ### Runs -/

variable {s s' : State} {msg : Msg}

theorem Step.update (h : Step lists s msg s') : ∃ cmd, s.model.update msg = some (s'.model, cmd) ∧
    ∀ req ∈ s'.pending, req ∈ s.pending ∨ req ∈ cmd.requests := by
  cases h with
  | @window m cmd width height h => exact ⟨cmd, h, fun req => List.mem_append.mp⟩
  | @key m cmd k h => exact ⟨cmd, h, fun req => List.mem_append.mp⟩
  | @page l req r m cmd p hpending hlists h =>
      refine ⟨cmd, h, fun req' hreq' => (List.mem_append.mp hreq').imp_left fun hold => ?_⟩
      rw [hpending]
      exact (List.Sublist.append_left (List.sublist_cons_self req r) l).subset hold

theorem Step.page_listed {p : PageMsg} (h : Step lists s (.page p) s') :
    ∃ req ∈ s.pending, ∀ e ∈ p.entries, lists req.cwd e := by
  cases h with
  | @page l req r m cmd p hpending hlists h => exact ⟨req, by simp [hpending], hlists⟩

theorem Model.placed_initialModel : initialModel.Placed := ⟨le_rfl, .inr (.inl ⟨rfl, rfl⟩)⟩

/-- The cursor is on a row, or waits for one, whatever the messages are. -/
theorem placed_of_reachable (h : Reachable lists s) : s.model.Placed := by
  induction h with
  | refl => exact placed_initialModel
  | tail _ hstep ih =>
      obtain ⟨msg, hstep⟩ := hstep
      obtain ⟨cmd, hupdate, -⟩ := hstep.update
      exact ih.of_effect (ih.effect hupdate)

structure AtRoot (lists : Str → Entry → Prop) (s : State) : Prop where
  placed : s.model.Placed
  cwd : s.model.cwd = []
  stack : ∀ dir ∈ s.model.stack, dir = []
  pending : ∀ req ∈ s.pending, req.cwd = []
  current : s.model.Current lists

theorem AtRoot.start : AtRoot lists State.start where
  placed := placed_initialModel
  cwd := rfl
  stack := by simp [State.start, initialModel]
  pending := by simp [State.start, initialModel, fetchCmd, Cmd.requests]
  current := by simp [State.start, initialModel, Current]

theorem AtRoot.step (h : AtRoot lists s) (hstep : Step lists s msg s') (henters : ¬ s.model.enters msg) :
    AtRoot lists s' := by
  obtain ⟨cmd, hupdate, hpending⟩ := hstep.update
  have heffect := h.placed.effect hupdate
  have hcurrent : s'.model.Current lists := by
    refine h.current.of_effect heffect fun p hmsg e he => ?_
    subst hmsg
    obtain ⟨req, hreq, hlisted⟩ := hstep.page_listed
    rw [h.cwd, ← h.pending req hreq]
    exact hlisted e he
  have hplaced := h.placed.of_effect heffect
  have hcmd : s'.model.cwd = [] ∧ (∀ dir ∈ s'.model.stack, dir = []) ∧ ∀ req ∈ cmd.requests, req.cwd = [] := by
    generalize s'.model = m' at heffect
    cases heffect with
    | kept hcwd hstack hentries hcursor hcmd =>
        exact ⟨hcwd.trans h.cwd, fun dir hdir => h.stack dir (hstack ▸ hdir),
          fun req hreq => (hcmd req hreq).trans h.cwd⟩
    | moved hnonneg hplace => exact ⟨h.cwd, h.stack, by simp [Cmd.requests]⟩
    | @arrived p hok =>
        rw [updatePage, if_neg (by simp [hok])]
        exact ⟨h.cwd, h.stack, by simp [Cmd.requests]⟩
    | @wentUp msg top stack hstack =>
        have htop : top = [] := h.stack top (by simp [hstack])
        have hrest : ∀ dir ∈ stack, dir = [] := fun dir hdir => h.stack dir (by simp [hstack, hdir])
        rw [goUp, hstack]
        exact ⟨by simpa using htop, by simpa using hrest, by simpa [Cmd.requests] using htop⟩
    | @descended msg e hrow hparent hdir hkey =>
        obtain ⟨k, rfl, haction⟩ := hkey
        -- a path that is not empty would have been entered
        have hpath : e.path = [] := by
          by_contra hpath
          exact henters ⟨k, e, rfl, haction, hrow, hparent, hdir, hpath⟩
        exact ⟨by simpa [descend] using hpath, by simpa [descend, h.cwd] using h.stack,
          by simpa [Cmd.requests] using hpath⟩
  refine ⟨hplaced, hcmd.1, hcmd.2.1, fun req hreq => ?_, hcurrent⟩
  rcases hpending req hreq with hold | hnew
  · exact h.pending req hold
  · exact hcmd.2.2 req hnew

theorem RootReachable.reachable (h : RootReachable lists s) : Reachable lists s := by
  induction h with
  | refl => exact .refl
  | tail _ hstep ih =>
      obtain ⟨msg, -, hstep⟩ := hstep
      exact ih.tail ⟨msg, hstep⟩

theorem atRoot_of_rootReachable (h : RootReachable lists s) : AtRoot lists s := by
  induction h with
  | refl => exact .start
  | tail _ hstep ih =>
      obtain ⟨msg, henters, hstep⟩ := hstep
      exact ih.step hstep henters

theorem AtRoot.valid (h : AtRoot lists s) : s.model.Valid lists := by
  have hwaiting : ¬ s.model.Waiting := fun hw => hw.cwd h.cwd
  refine ⟨h.placed.indexed_or_waiting.resolve_right hwaiting, fun msg hnone => ?_, h.current⟩
  exact hwaiting ((h.placed.update_eq_none_iff msg).mp hnone).1

theorem Model.Waiting.not_indexed (h : m.Waiting) : ¬ m.Indexed := by
  rintro (hnone | ⟨-, hlt⟩)
  · simp [h.entries] at hnone
  · simp [h.entries, h.cursor] at hlt

/-- After a directory is entered, there is no row under the cursor. -/
theorem Step.waiting_of_enters (h : Step lists s msg s') (henters : s.model.enters msg) : s'.model.Waiting := by
  obtain ⟨k, e, rfl, haction, hrow, hparent, hdir, hpath⟩ := henters
  obtain ⟨cmd, hupdate, -⟩ := h.update
  have hrows : s.model.entries ≠ [] := by
    intro hnone
    simp [entryAtCursor, hnone] at hrow
  have hdescend : s.model.update (.key k) = some (s.model.descend e.path) := by
    simp [Model.update, haction, updateKey, hrows, hrow, hparent, hdir]
  have hmodel : s'.model = (s.model.descend e.path).1 := by
    rw [hdescend] at hupdate
    exact (congrArg Prod.fst (Option.some.inj hupdate)).symm
  rw [hmodel, descend, resetForCwd, if_pos hpath]
  exact ⟨hpath, rfl, rfl⟩

/-- The browser is as it is to be until a directory is entered, and not after that. -/
theorem valid_until_entered (h : RootReachable lists s) :
    s.model.Valid lists ∧
      ∀ msg s', Step lists s msg s' → (s'.model.Valid lists ↔ ¬ s.model.enters msg) := by
  have hroot := atRoot_of_rootReachable h
  refine ⟨hroot.valid, fun msg s' hstep => ⟨fun hvalid henters => ?_, fun henters => (hroot.step hstep henters).valid⟩⟩
  exact (hstep.waiting_of_enters henters).not_indexed hvalid.indexed

theorem panics_iff (h : Reachable lists s) (msg : Msg) :
    s.model.update msg = none ↔
      s.model.Waiting ∧ ∃ k, msg = .key k ∧ (keyAction k = .toggle ∨ keyAction k = .enter) :=
  (placed_of_reachable h).update_eq_none_iff msg

end

/-! ### A space that comes too early -/

def homeRow : Entry := ⟨"/home".toList, "/".toList, true, 4096, false⟩

def onlyHome (cwd : Str) (e : Entry) : Prop := cwd = [] ∧ e = homeRow

def listed : State := ⟨(initialModel.updatePage ⟨[homeRow], [], none⟩).1, []⟩

theorem rootReachable_listed : RootReachable onlyHome listed := by
  refine .tail .refl ⟨.page ⟨[homeRow], [], none⟩, ?_, .page (l := []) (r := []) _ rfl ?_ rfl⟩
  · rintro ⟨k, e, hkey, -⟩
    cases hkey
  · intro e he
    exact ⟨rfl, List.mem_singleton.mp he⟩

/-- `Enter` on `/home`. -/
def entered : State := ⟨(listed.model.descend homeRow.path).1, [⟨homeRow.path, []⟩]⟩

theorem step_entered : Step onlyHome listed (.key "enter") entered := by
  have hupdate : listed.model.update (.key "enter") = some (entered.model, .fetch ⟨homeRow.path, []⟩) := rfl
  exact .key "enter" hupdate

theorem valid_until_entered_home : ¬ entered.model.Valid onlyHome := fun hvalid =>
  ((valid_until_entered rootReachable_listed).2 _ _ step_entered).mp hvalid
    ⟨"enter", homeRow, rfl, rfl, rfl, rfl, rfl, by decide⟩

/-- A space before the first page of `/home` has arrived. -/
theorem space_panics : ¬ ∀ (lists : Str → Entry → Prop) (s : State), Reachable lists s → s.model.Valid lists := by
  intro h
  have hentered : Reachable onlyHome entered := rootReachable_listed.reachable.tail ⟨_, step_entered⟩
  exact (h onlyHome entered hentered).noPanic (.key " ") rfl

end CloudBackup.Client.Browse
