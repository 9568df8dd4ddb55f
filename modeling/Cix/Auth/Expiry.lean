import Cix.Auth.Sessions

/-!
# A session that has expired stays expired

The file is not written when a session is turned away as expired, and it need
not be: while the idle timeout is not lowered, the expiry in the file is never
later than the one in memory.  A lowered timeout breaks that: the next request
moves the expiry in memory back, and the file, written only when the expiry has
moved forward, keeps the later one.
-/

namespace Cix.Auth

open Cix.Lib Cix.Json Option
open List hiding asString
open Cix.Ldap (Clock)

/-! ## Reading what was saved -/

variable {sessions : List Session}

def sessionMembers (s : Session) : List (CStr × Doc) :=
  [("token_sha256", .str s.tokenHash.str), ("username", .str s.username.str),
    ("expires_at", .int (Double.Whole.ofInt s.expiresAt)),
    ("logged_in_at", .int (Double.Whole.ofInt s.loggedInAt)),
    ("source_ip", .str s.sourceIp.str)]

def Session.Timely (s : Session) : Prop :=
  s.expiresAt.natAbs ≤ 2 ^ 53 ∧ s.loggedInAt.natAbs ≤ 2 ^ 53

theorem emits_writeSession {s : Session} (timely : s.Timely) :
    Emits (writeSession s) (.obj (sessionMembers s)) := by
  have str := fun (name : String) (text : CStr) =>
    (emits_str text).member (CStr.ofString name)
  obtain ⟨expiresTimely, loginTimely⟩ := timely
  have expires := (emits_int expiresTimely).member "expires_at"
  have loggedIn := (emits_int loginTimely).member "logged_in_at"
  have who := (str "token_sha256" s.tokenHash.str).comp (str "username" s.username.str)
  have emitted := FillsObj.emits (((who.comp expires).comp loggedIn).comp
    (str "source_ip" s.sourceIp.str))
  simp only [cons_append, nil_append] at emitted
  exact emitted

theorem sessionsText_eq (timely : ∀ s ∈ sessions, s.Timely) : sessionsText sessions =
      (Doc.obj [("sessions", .arr (sessions.map fun s => .obj (sessionMembers s)))]).text := by
  have items := (emits_arr fun s (mem : s ∈ sessions) =>
    emits_writeSession (timely s mem)).member "sessions"
  exact (FillsObj.emits items).buf_jwInit

def reloaded (s : Session) : Option Session :=
  if s.username.str.length ≠ 0 then
    some { s with savedExpiresAt := s.expiresAt }
  else none

theorem loadSession_saved {s : Session} (timely : s.Timely) :
    loadSession (Doc.obj (sessionMembers s)).value = reloaded s := by
  have distinct : ((sessionMembers s).map Prod.fst).Nodup := by
    simp only [sessionMembers, map_cons, map_nil]
    decide
  have read : ∀ (name : String) (d : Doc), (CStr.ofString name, d) ∈ sessionMembers s →
        objectGet (some (Doc.obj (sessionMembers s)).value) name = some d.value :=
    fun _ _ mem => objectGet_member distinct mem
  have hash := read "token_sha256" (.str s.tokenHash.str) (by simp [sessionMembers])
  have user := read "username" (.str s.username.str) (by simp [sessionMembers])
  have expires := read "expires_at" (.int (Double.Whole.ofInt s.expiresAt))
    (by simp [sessionMembers])
  have loggedIn := read "logged_in_at"
    (.int (Double.Whole.ofInt s.loggedInAt)) (by simp [sessionMembers])
  have source := read "source_ip" (.str s.sourceIp.str) (by simp [sessionMembers])
  have fits := s.username.fits
  rw [loadSession, hash, user, expires, loggedIn, source, reloaded]
  simp only [Doc.value, asString, asNumber, s.tokenHash.valid, dif_pos,
    Double.toLongLong_ofWhole, Double.Whole.ofInt_value timely.1,
    Double.Whole.ofInt_value timely.2, getD_some,
    BoundedStr.store_str, fits, and_true]

theorem fileSessions_saved (timely : ∀ s ∈ sessions, s.Timely) :
    fileSessions (some (sessionsText sessions)) =
      sessions.filterMap reloaded := by
  have found : objectGet (some (Doc.obj [("sessions",
      .arr (sessions.map fun s => .obj (sessionMembers s)))]).value)
        "sessions" = some (Doc.arr (sessions.map fun s =>
          .obj (sessionMembers s))).value :=
    objectGet_member (by simp) (by simp)
  rw [fileSessions, sessionsText_eq timely, jsonParse_text, found, asArray_arr]
  dsimp only
  rw [filterMap_map, filterMap_map]
  apply filterMap_congr
  intro s mem
  exact loadSession_saved (timely s mem)

theorem exists_saved (timely : ∀ s ∈ sessions, s.Timely) {r : Session}
    (mem : r ∈ fileSessions (some (sessionsText sessions))) :
    ∃ m ∈ sessions, r.tokenHash = m.tokenHash ∧
      r.expiresAt = m.expiresAt ∧ r.loggedInAt = m.loggedInAt := by
  rw [fileSessions_saved timely, mem_filterMap] at mem
  obtain ⟨m, saved, loaded⟩ := mem
  unfold reloaded at loaded
  split_ifs at loaded
  cases loaded
  exact ⟨m, saved, rfl, rfl, rfl⟩

theorem fileSessions_distinct (timely : ∀ s ∈ sessions, s.Timely)
    (distinct : sessions.Pairwise fun a b => a.tokenHash ≠ b.tokenHash) :
    (fileSessions (some (sessionsText sessions))).Pairwise
      fun a b => a.tokenHash ≠ b.tokenHash := by
  rw [fileSessions_saved timely, pairwise_filterMap]
  apply distinct.imp
  intro a b different x loadedA y loadedB
  unfold reloaded at loadedA loadedB
  split_ifs at loadedA loadedB
  cases loadedA
  cases loadedB
  exact different

/-! ## The invariant -/

variable {m : Session}

structure Known (s : Sessions) (m : Session) : Prop where
  afterEpoch : 0 ≤ m.expiresAt
  withinIdle : m.expiresAt ≤ s.clock + s.idle.toInt
  loginAfterEpoch : 0 ≤ m.loggedInAt
  loginBefore : m.loggedInAt ≤ s.clock
  isIssued : m.tokenHash ∈ s.issued
  /-- A session that was turned away has run out for good. -/
  ranOut : m.tokenHash ∈ s.refused → 0 < s.idle.toInt ∧ m.expiresAt ≤ s.clock

structure SessionInv (s : Sessions) : Prop where
  clockBounded : s.clock ≤ 9223372036
  idleSaved : s.savedIdle = s.idle
  idleNonneg : 0 ≤ s.idle.toInt
  table : ∀ i m, s.table.get i = some m → Known s m
  file : ∀ r ∈ fileSessions s.file, Known s r
  /-- The file is never ahead of the memory. -/
  behind : ∀ i m, s.table.get i = some m → ∀ r ∈ fileSessions s.file,
    r.tokenHash = m.tokenHash → r.expiresAt ≤ m.expiresAt
  tableDistinct : ∀ i j a b, s.table.get i = some a →
    s.table.get j = some b → a.tokenHash = b.tokenHash → i = j
  fileDistinct : (fileSessions s.file).Pairwise fun a b => a.tokenHash ≠ b.tokenHash
  refusedIssued : ∀ hash ∈ s.refused, hash ∈ s.issued

theorem sessionInv_fresh : SessionInv Sessions.fresh where
  clockBounded := by decide
  idleSaved := rfl
  idleNonneg := by decide
  table := by
    intro i m held
    rw [Sessions.fresh, Slots.get_empty] at held
    cases held
  file := by
    intro r mem
    cases mem
  behind := by
    intro i m _ r mem
    cases mem
  tableDistinct := by
    intro i j a b held
    rw [Sessions.fresh, Slots.get_empty] at held
    cases held
  fileDistinct := List.Pairwise.nil
  refusedIssued := by
    intro hash mem
    cases mem

theorem Known.timely {s : Sessions} (inv : SessionInv s) (known : Known s m) :
    m.Timely := by
  have bounded := inv.clockBounded
  have small := s.idle.toInt_lt
  obtain ⟨afterEpoch, withinIdle, loginAfterEpoch, loginBefore, _, _⟩ := known
  constructor <;> omega

/-! ## Single moves -/

variable {slot : Nat}

theorem SessionInv.advance {s : Sessions} (inv : SessionInv s)
    (now : Clock) (later : s.clock ≤ now.seconds) :
    SessionInv { s with clock := now.seconds } := by
  have known : ∀ {m}, Known s m → Known { s with clock := now.seconds } m := by
    intro m known
    refine ⟨known.afterEpoch, ?_, known.loginAfterEpoch, ?_, known.isIssued, ?_⟩
    · have := known.withinIdle
      dsimp only
      omega
    · have := known.loginBefore
      dsimp only
      omega
    · intro refused
      obtain ⟨positive, past⟩ := known.ranOut refused
      refine ⟨positive, ?_⟩
      dsimp only
      omega
  exact
    { clockBounded := now.bounded
      idleSaved := inv.idleSaved
      idleNonneg := inv.idleNonneg
      table := fun i m held => known (inv.table i m held)
      file := fun r mem => known (inv.file r mem)
      behind := inv.behind
      tableDistinct := inv.tableDistinct
      fileDistinct := inv.fileDistinct
      refusedIssued := inv.refusedIssued }

theorem SessionInv.leave {s : Sessions} (inv : SessionInv s)
    {table : Slots Session sessionMax}
    (fewer : ∀ i m, table.get i = some m → s.table.get i = some m) :
    SessionInv { s with table := table } where
  clockBounded := inv.clockBounded
  idleSaved := inv.idleSaved
  idleNonneg := inv.idleNonneg
  table := fun i m held => by
    obtain ⟨a, b, c, d, e, f⟩ := inv.table i m (fewer i m held)
    exact ⟨a, b, c, d, e, f⟩
  file := fun r mem => by
    obtain ⟨a, b, c, d, e, f⟩ := inv.file r mem
    exact ⟨a, b, c, d, e, f⟩
  behind := fun i m held => inv.behind i m (fewer i m held)
  tableDistinct := fun i j a b heldA heldB =>
    inv.tableDistinct i j a b (fewer i a heldA) (fewer j b heldB)
  fileDistinct := inv.fileDistinct
  refusedIssued := inv.refusedIssued

theorem SessionInv.clear {s : Sessions} (inv : SessionInv s)
    (slot : Nat) : SessionInv { s with table := s.table.put slot none } := by
  apply inv.leave
  intro i m held
  rcases Slots.get_of_get_put held with ⟨_, nothing⟩ | ⟨_, old⟩
  · cases nothing
  · exact old

theorem Known.congr {s s' : Sessions} {m' : Session} (known : Known s m)
    (clock : s'.clock = s.clock) (idle : s'.idle = s.idle)
    (issued : s'.issued = s.issued) (refused : s'.refused = s.refused)
    (hash : m'.tokenHash = m.tokenHash) (expires : m'.expiresAt = m.expiresAt)
    (loggedIn : m'.loggedInAt = m.loggedInAt) : Known s' m' := by
  obtain ⟨a, b, c, d, e, f⟩ := known
  constructor
  · rw [expires]
    exact a
  · rw [expires, clock, idle]
    exact b
  · rw [loggedIn]
    exact c
  · rw [loggedIn, clock]
    exact d
  · rw [hash, issued]
    exact e
  · rw [hash, refused, idle, expires, clock]
    exact f

theorem SessionInv.timely {s : Sessions} (inv : SessionInv s)
    (mem : m ∈ s.table.entries) : m.Timely := by
  obtain ⟨i, held⟩ := Slots.mem_entries_iff_get.mp mem
  exact (inv.table i m held).timely inv

theorem SessionInv.entries_distinct {s : Sessions} (inv : SessionInv s) :
    s.table.entries.Pairwise fun a b => a.tokenHash ≠ b.tokenHash := by
  apply Slots.entries_pairwise
  intro i j a b less heldA heldB same
  have := inv.tableDistinct i j a b heldA heldB same
  omega

theorem SessionInv.save {s : Sessions} (inv : SessionInv s) (written : Bool) (now : Clock) :
    SessionInv (saveSessions written now s) := by
  unfold saveSessions
  split
  next =>
    have timely : ∀ m ∈ s.table.entries.filter
        (fun session => !lapsed s.idle now session.expiresAt),
        m.Timely :=
      fun m mem => inv.timely (mem_of_mem_filter mem)
    have adjusted : ∀ i m, (s.table.adjust fun _ session =>
        { session with savedExpiresAt := session.expiresAt }).get i = some m →
        ∃ m₀, s.table.get i = some m₀ ∧ m.tokenHash = m₀.tokenHash ∧
          m.expiresAt = m₀.expiresAt ∧ m.loggedInAt = m₀.loggedInAt := by
      intro i m held
      rw [Slots.get_adjust] at held
      obtain ⟨m₀, held₀, rfl⟩ := map_eq_some_iff.mp held
      exact ⟨m₀, held₀, rfl, rfl, rfl⟩
    have saved : ∀ r ∈ fileSessions (some (sessionsText (s.table.entries.filter fun session =>
          !lapsed s.idle now session.expiresAt))),
        ∃ i m₀, s.table.get i = some m₀ ∧ r.tokenHash = m₀.tokenHash ∧
          r.expiresAt = m₀.expiresAt ∧ r.loggedInAt = m₀.loggedInAt := by
      intro r mem
      obtain ⟨m₀, held₀, same⟩ := exists_saved timely mem
      obtain ⟨i, atI⟩ := Slots.mem_entries_iff_get.mp (mem_of_mem_filter held₀)
      exact ⟨i, m₀, atI, same⟩
    exact
      { clockBounded := inv.clockBounded
        idleSaved := inv.idleSaved
        idleNonneg := inv.idleNonneg
        table := by
          intro i m held
          obtain ⟨m₀, held₀, hash, expires, loggedIn⟩ := adjusted i m held
          exact (inv.table i m₀ held₀).congr rfl rfl rfl rfl hash expires loggedIn
        file := by
          intro r mem
          obtain ⟨i, m₀, held₀, hash, expires, loggedIn⟩ := saved r mem
          exact (inv.table i m₀ held₀).congr rfl rfl rfl rfl hash expires loggedIn
        behind := by
          intro i m held r mem same
          obtain ⟨m₁, held₁, hash₁, expires₁, _⟩ := adjusted i m held
          obtain ⟨j, m₀, held₀, hash₀, expires₀, _⟩ := saved r mem
          have sameSlot := inv.tableDistinct j i m₀ m₁ held₀ held₁ (by rw [← hash₀, same, hash₁])
          rw [sameSlot, held₁] at held₀
          rw [expires₀, expires₁, some.inj held₀]
        tableDistinct := by
          intro i j a b heldA heldB same
          obtain ⟨a₀, heldA₀, hashA, _⟩ := adjusted i a heldA
          obtain ⟨b₀, heldB₀, hashB, _⟩ := adjusted j b heldB
          exact inv.tableDistinct i j a₀ b₀ heldA₀ heldB₀ (by rw [← hashA, same, hashB])
        fileDistinct := fileSessions_distinct timely (inv.entries_distinct.filter _)
        refusedIssued := inv.refusedIssued }
  next => exact inv

theorem SessionInv.renew {s : Sessions} (inv : SessionInv s)
    (held : s.table.get slot = some m) (now : Clock)
    (current : s.clock = now.seconds) (live : ¬ m.expiresAt ≤ now.seconds) :
    SessionInv { s with
      table := s.table.put slot (some { m with expiresAt := deadline s.idle now }) } := by
  have known := inv.table slot m held
  have later : m.expiresAt ≤ deadline s.idle now := by
    have within := known.withinIdle
    unfold deadline
    omega
  have unrefused : m.tokenHash ∉ s.refused := by
    intro refused
    have past := (known.ranOut refused).2
    omega
  have nonneg := inv.idleNonneg
  have renewed : Known s { m with expiresAt := deadline s.idle now } := by
    refine ⟨?_, ?_, known.loginAfterEpoch, known.loginBefore,
      known.isIssued, fun refused => absurd refused unrefused⟩
    · unfold deadline
      dsimp only
      omega
    · unfold deadline
      dsimp only
      omega
  have slots : ∀ i a, (s.table.put slot
      (some { m with expiresAt := deadline s.idle now })).get i = some a →
      ∃ a₀, s.table.get i = some a₀ ∧ a.tokenHash = a₀.tokenHash ∧
        a₀.expiresAt ≤ a.expiresAt ∧ Known s a := by
    intro i a heldA
    rcases Slots.get_of_get_put heldA with ⟨atSlot, new⟩ | ⟨_, old⟩
    · cases new
      rw [atSlot]
      exact ⟨m, held, rfl, later, renewed⟩
    · exact ⟨a, old, rfl, Int.le_refl _, inv.table i a old⟩
  exact
    { clockBounded := inv.clockBounded
      idleSaved := inv.idleSaved
      idleNonneg := inv.idleNonneg
      table := by
        intro i a heldA
        obtain ⟨_, _, _, _, known⟩ := slots i a heldA
        exact known.congr rfl rfl rfl rfl rfl rfl rfl
      file := fun r mem =>
        (inv.file r mem).congr rfl rfl rfl rfl rfl rfl rfl
      behind := by
        intro i a heldA r mem same
        obtain ⟨a₀, heldA₀, hash, le, _⟩ := slots i a heldA
        have behind := inv.behind i a₀ heldA₀ r mem (same.trans hash)
        exact Int.le_trans behind le
      tableDistinct := by
        intro i j a b heldA heldB same
        obtain ⟨a₀, heldA₀, hashA, _⟩ := slots i a heldA
        obtain ⟨b₀, heldB₀, hashB, _⟩ := slots j b heldB
        exact inv.tableDistinct i j a₀ b₀ heldA₀ heldB₀ (by rw [← hashA, same, hashB])
      fileDistinct := inv.fileDistinct
      refusedIssued := inv.refusedIssued }

theorem SessionInv.slide {s : Sessions} (inv : SessionInv s)
    (held : s.table.get slot = some m) (now : Clock)
    (current : s.clock = now.seconds) (live : ¬ m.expiresAt ≤ now.seconds)
    (written : Bool) : SessionInv (slideSession slot m now written s) := by
  have renewed := inv.renew held now current live
  unfold slideSession
  dsimp only
  split
  next => exact renewed.save written now
  next => exact renewed

theorem SessionInv.refuse {s : Sessions} (inv : SessionInv s)
    (held : s.table.get slot = some m) (now : Clock)
    (current : s.clock = now.seconds) (idle : 0 < s.idle.toInt)
    (past : m.expiresAt ≤ now.seconds) :
    SessionInv { s with refused := m.tokenHash :: s.refused } := by
  have known : ∀ {a}, Known s a → (a.tokenHash = m.tokenHash → a.expiresAt ≤ s.clock) →
        Known { s with refused := m.tokenHash :: s.refused } a := by
    intro a known ends
    refine ⟨known.afterEpoch, known.withinIdle, known.loginAfterEpoch,
      known.loginBefore, known.isIssued, ?_⟩
    intro refused
    rcases mem_cons.mp refused with new | old
    · exact ⟨idle, ends new⟩
    · exact known.ranOut old
  exact
    { clockBounded := inv.clockBounded
      idleSaved := inv.idleSaved
      idleNonneg := inv.idleNonneg
      table := by
        intro i a heldA
        apply known (inv.table i a heldA)
        intro same
        have sameSlot := inv.tableDistinct i slot a m heldA held same
        rw [sameSlot, held] at heldA
        cases heldA
        omega
      file := by
        intro r mem
        apply known (inv.file r mem)
        intro same
        have behind := inv.behind slot m held r mem same
        omega
      behind := inv.behind
      tableDistinct := inv.tableDistinct
      fileDistinct := inv.fileDistinct
      refusedIssued := by
        intro hash mem
        rcases mem_cons.mp mem with new | old
        · rw [new]
          exact (inv.table slot m held).isIssued
        · exact inv.refusedIssued hash old }

theorem SessionInv.issue {s : Sessions} (inv : SessionInv s)
    (unused : m.tokenHash ∉ s.issued) (afterEpoch : 0 ≤ m.expiresAt)
    (withinIdle : m.expiresAt ≤ s.clock + s.idle.toInt)
    (loginAfterEpoch : 0 ≤ m.loggedInAt) (loginBefore : m.loggedInAt ≤ s.clock)
    :
    SessionInv { s with
      table := s.table.put slot (some m)
      issued := m.tokenHash :: s.issued } := by
  have known : ∀ {a}, Known s a → Known { s with
        table := s.table.put slot (some m)
        issued := m.tokenHash :: s.issued } a := by
    intro a known
    exact ⟨known.afterEpoch, known.withinIdle, known.loginAfterEpoch,
      known.loginBefore, mem_cons_of_mem _ known.isIssued,
      known.ranOut⟩
  have unlike : ∀ {a}, Known s a → a.tokenHash ≠ m.tokenHash := by
    intro a known same
    apply unused
    rw [← same]
    exact known.isIssued
  exact
    { clockBounded := inv.clockBounded
      idleSaved := inv.idleSaved
      idleNonneg := inv.idleNonneg
      table := by
        intro i a held
        rcases Slots.get_of_get_put held with ⟨_, new⟩ | ⟨_, old⟩
        · cases new
          refine ⟨afterEpoch, withinIdle, loginAfterEpoch, loginBefore, mem_cons_self, ?_⟩
          intro refused
          exact absurd (inv.refusedIssued _ refused) unused
        · exact known (inv.table i a old)
      file := fun r mem => known (inv.file r mem)
      behind := by
        intro i a held r mem same
        rcases Slots.get_of_get_put held with ⟨_, new⟩ | ⟨_, old⟩
        · cases new
          exact absurd same (unlike (inv.file r mem))
        · exact inv.behind i a old r mem same
      tableDistinct := by
        intro i j a b heldA heldB same
        rcases Slots.get_of_get_put heldA with ⟨atA, newA⟩ | ⟨_, oldA⟩
        · rcases Slots.get_of_get_put heldB with ⟨atB, _⟩ | ⟨_, oldB⟩
          · rw [atA, atB]
          · cases newA
            exact absurd same.symm (unlike (inv.table j b oldB))
        · rcases Slots.get_of_get_put heldB with ⟨_, newB⟩ | ⟨_, oldB⟩
          · cases newB
            exact absurd same (unlike (inv.table i a oldA))
          · exact inv.tableDistinct i j a b oldA oldB same
      fileDistinct := inv.fileDistinct
      refusedIssued := fun hash mem =>
        mem_cons_of_mem _ (inv.refusedIssued hash mem) }

theorem SessionInv.load {s : Sessions} (inv : SessionInv s) (now : Clock) :
    SessionInv (loadSessions now s) := by
  have fromFile : ∀ i m, (loadSessions now s).table.get i = some m → m ∈ fileSessions s.file := by
    intro i m held
    have mem := Slots.mem_of_mem_ofEntries (Slots.mem_entries_iff_get.mpr ⟨i, held⟩)
    exact mem_of_mem_filter mem
  have known : ∀ {a}, Known s a → Known (loadSessions now s) a := by
    intro a known
    exact known.congr rfl inv.idleSaved rfl rfl rfl rfl rfl
  have sameSession : ∀ {a b}, a ∈ fileSessions s.file →
      b ∈ fileSessions s.file → a.tokenHash = b.tokenHash → a = b := by
    intro a b memberA memberB same
    have symmetric : Std.Symm fun a b : Session =>
        a.tokenHash ≠ b.tokenHash := ⟨fun _ _ different => different.symm⟩
    by_contra different
    exact inv.fileDistinct.forall memberA memberB different same
  exact
    { clockBounded := inv.clockBounded
      idleSaved := rfl
      idleNonneg := by
        change 0 ≤ s.savedIdle.toInt
        rw [inv.idleSaved]
        exact inv.idleNonneg
      table := fun i m held => known (inv.file m (fromFile i m held))
      file := fun r mem => known (inv.file r mem)
      behind := by
        intro i m held r mem same
        rw [sameSession mem (fromFile i m held) same]
      tableDistinct := by
        intro i j a b heldA heldB same
        have apart := inv.fileDistinct.filter
          fun session => !lapsed s.savedIdle now session.expiresAt
        by_contra different
        rcases Nat.lt_or_gt_of_ne different with less | more
        · exact Slots.pairwise_ofEntries apart less heldA heldB same
        · exact Slots.pairwise_ofEntries apart more heldB heldA same.symm
      fileDistinct := inv.fileDistinct
      refusedIssued := inv.refusedIssued }

def Sessions.Empty (s : Sessions) : Prop :=
  (∀ i, s.table.get i = none) ∧ fileSessions s.file = []

theorem SessionInv.setIdle {s : Sessions} (inv : SessionInv s)
    (idle : Int32) (accepted written : Bool)
    (harmless : accepted = true → written = true → 0 ≤ idle.toInt →
      idle.toInt < s.idle.toInt → s.Empty) :
    SessionInv (hostauthSetIdle idle accepted written s) := by
  unfold hostauthSetIdle
  split
  next => exact inv
  next valid =>
    push Not at valid
    have known : ∀ {a}, s.idle.toInt ≤ idle.toInt → Known s a →
        Known { s with idle := idle, savedIdle := idle } a := by
      intro a raised known
      refine ⟨known.afterEpoch, ?_, known.loginAfterEpoch, known.loginBefore, known.isIssued, ?_⟩
      · have within := known.withinIdle
        dsimp only
        omega
      · intro refused
        obtain ⟨positive, past⟩ := known.ranOut refused
        refine ⟨?_, past⟩
        dsimp only
        omega
    by_cases lowered : idle.toInt < s.idle.toInt
    · obtain ⟨noTable, noFile⟩ := harmless (by simpa using valid.2.1)
        (by simpa using valid.2.2) valid.1 lowered
      exact
        { clockBounded := inv.clockBounded
          idleSaved := rfl
          idleNonneg := valid.1
          table := by
            intro i m held
            rw [noTable i] at held
            cases held
          file := by
            intro r mem
            rw [noFile] at mem
            cases mem
          behind := inv.behind
          tableDistinct := inv.tableDistinct
          fileDistinct := inv.fileDistinct
          refusedIssued := inv.refusedIssued }
    · have raised : s.idle.toInt ≤ idle.toInt := by omega
      exact
        { clockBounded := inv.clockBounded
          idleSaved := rfl
          idleNonneg := valid.1
          table := fun i m held => known raised (inv.table i m held)
          file := fun r mem => known raised (inv.file r mem)
          behind := inv.behind
          tableDistinct := inv.tableDistinct
          fileDistinct := inv.fileDistinct
          refusedIssued := inv.refusedIssued }

/-! ## Events -/

section Events

variable {sha256 : CStr → TokenHash} {s : Sessions}

theorem hash_of_findSession {token : CStr} (found : findSession sha256 token s = some (slot, m)) :
    s.table.get slot = some m ∧ m.tokenHash = sha256 token := by
  unfold findSession at found
  split at found
  next => cases found
  next =>
    obtain ⟨held, same⟩ := Slots.get_of_find found
    exact ⟨held, by simpa using same⟩

theorem SessionInv.idle_pos (inv : SessionInv s) (used : s.idle ≠ 0) : 0 < s.idle.toInt := by
  have nonneg := inv.idleNonneg
  have nonzero : s.idle.toInt ≠ 0 := by
    intro zero
    exact used (Int32.toInt_inj.mp zero)
  omega

theorem SessionInv.check (inv : SessionInv s) (now : Clock)
    (current : s.clock = now.seconds) (token : CStr) (written : Bool) :
    SessionInv (hostauthCheckToken sha256 token now written s).1 := by
  unfold hostauthCheckToken
  split
  next => exact inv
  next slot m found =>
    obtain ⟨held, hash⟩ := hash_of_findSession found
    split
    next => exact (inv.clear slot).save written now
    next used =>
      split
      next past =>
        have turnedAway := inv.refuse held now current (inv.idle_pos used) past
        rw [hash] at turnedAway
        exact turnedAway.clear slot
      next live => exact inv.slide held now current live written

theorem SessionInv.peek (inv : SessionInv s) (now : Clock)
    (current : s.clock = now.seconds) (token : CStr) :
    SessionInv (hostauthPeekToken sha256 token now s).1 := by
  unfold hostauthPeekToken
  split
  next => exact inv
  next slot m found =>
    obtain ⟨held, hash⟩ := hash_of_findSession found
    split
    next lapse =>
      have turnedAway := inv.refuse held now current (inv.idle_pos lapse.1) lapse.2
      rw [hash] at turnedAway
      exact turnedAway
    next => exact inv

theorem SessionInv.touch (inv : SessionInv s) (now : Clock)
    (current : s.clock = now.seconds) (token : CStr) (written : Bool) :
    SessionInv (hostauthTouchToken sha256 token now written s) := by
  unfold hostauthTouchToken
  split
  next => exact inv
  next =>
    split
    next => exact inv
    next slot m found =>
      split
      next => exact inv
      next live =>
        exact inv.slide (hash_of_findSession found).1 now current live written

theorem SessionInv.authorize (inv : SessionInv s) (now : Clock)
    (current : s.clock = now.seconds) (token : CStr)
    (permission : Option CStr) (gating : Bool)
    (holds : BoundedStr 32 → Bool) (peeks written : Bool) :
    SessionInv (authorizeSession sha256 token permission gating holds peeks now written s).1 := by
  have looked : SessionInv (if peeks then hostauthPeekToken sha256 token now s
      else hostauthCheckToken sha256 token now written s).1 := by
    split
    next => exact inv.peek now current token
    next => exact inv.check now current token written
  unfold authorizeSession
  split
  next => exact inv
  next permission =>
    split
    next => exact inv
    next =>
      dsimp only
      generalize (if peeks then hostauthPeekToken sha256 token now s
        else hostauthCheckToken sha256 token now written s) = answer at looked ⊢
      obtain ⟨after, user⟩ := answer
      cases user with
      | none => exact looked
      | some user =>
        dsimp only
        split <;> exact looked

theorem SessionInv.dropLapsed (inv : SessionInv s) (now : Clock) : SessionInv (dropLapsed now s) :=
  inv.leave fun _ _ held => Slots.get_of_get_keep held

theorem SessionInv.login (inv : SessionInv s) (now : Clock)
    (current : s.clock = now.seconds) {token : Option CStr}
    (unused : ∀ t, token = some t → sha256 t ∉ s.issued)
    (username sourceIp : CStr) (written : Bool) :
    SessionInv (hostauthIssueSession sha256 token username sourceIp now written s) := by
  have reaped := inv.dropLapsed now
  have nonneg := inv.idleNonneg
  unfold hostauthIssueSession
  dsimp only
  split
  next slot token free =>
    apply SessionInv.save
    apply reaped.issue (unused token rfl)
    · change 0 ≤ deadline s.idle now
      unfold deadline
      omega
    · change deadline s.idle now ≤ s.clock + s.idle.toInt
      unfold deadline
      omega
    · change (0 : Int) ≤ now.seconds
      omega
    · change (now.seconds : Int) ≤ s.clock
      omega
  next => exact reaped

theorem SessionInv.logout (inv : SessionInv s) (now : Clock) (token : CStr) (written : Bool) :
    SessionInv (hostauthLogout sha256 token now written s) := by
  unfold hostauthLogout
  split
  next => exact inv
  next slot m found => exact (inv.clear slot).save written now

theorem SessionInv.revoke (inv : SessionInv s) (now : Clock) (username : CStr) (written : Bool) :
    SessionInv (hostauthRevokeSessionsForUser username now written s) := by
  unfold hostauthRevokeSessionsForUser
  split
  next => exact inv
  next =>
    split
    next =>
      apply SessionInv.save
      exact inv.leave fun _ _ held => Slots.get_of_get_keep held
    next => exact inv

/-! ## Runs -/

/-- The clock does not go back, a new token is unlike every earlier one, and the
timeout is lowered only while there is no session. -/
def KeepsExpiry (sha256 : CStr → TokenHash) (s : Sessions) (event : Clock × SessionEvent) : Prop :=
  s.clock ≤ event.1.seconds ∧
    match event.2 with
    | .login token _ _ _ => ∀ t, token = some t → sha256 t ∉ s.issued
    | .setIdle idle accepted written =>
      accepted = true → written = true → 0 ≤ idle.toInt → idle.toInt < s.idle.toInt → s.Empty
    | _ => True

theorem SessionInv.step (inv : SessionInv s)
    {event : Clock × SessionEvent} (keeps : KeepsExpiry sha256 s event) :
    SessionInv (sessionStep sha256 s event) := by
  obtain ⟨now, kind⟩ := event
  obtain ⟨later, condition⟩ := keeps
  have moved := inv.advance now later
  unfold sessionStep
  cases kind with
  | login token username sourceIp written =>
    exact moved.login now rfl condition username sourceIp written
  | check token written => exact moved.check now rfl token written
  | peek token => exact moved.peek now rfl token
  | touch token written => exact moved.touch now rfl token written
  | authorize token permission gating holds peeks written =>
    exact moved.authorize now rfl token permission gating holds peeks written
  | logout token written => exact moved.logout now token written
  | revoke username written => exact moved.revoke now username written
  | reap => exact moved.dropLapsed now
  | setIdle idle accepted written => exact moved.setIdle idle accepted written condition
  | restart => exact moved.load now

def StaysExpired (sha256 : CStr → TokenHash) (s : Sessions) : Prop :=
  ∀ token, sha256 token ∈ s.refused → ∀ now : Clock, s.clock ≤ now.seconds →
      (∀ written, (hostauthCheckToken sha256 token now written s).2 = none) ∧
      (hostauthPeekToken sha256 token now s).2 = none

theorem SessionInv.staysExpired (inv : SessionInv s) :
    StaysExpired sha256 s := by
  intro token refused now later
  cases found : findSession sha256 token s with
  | none => simp [hostauthCheckToken, hostauthPeekToken, found]
  | some result =>
    obtain ⟨slot, m⟩ := result
    obtain ⟨held, hash⟩ := hash_of_findSession found
    rw [← hash] at refused
    obtain ⟨positive, past⟩ := (inv.table slot m held).ranOut refused
    have used : s.idle ≠ 0 := by
      intro zero
      rw [zero] at positive
      exact absurd positive (by decide)
    have past : m.expiresAt ≤ now.seconds := by omega
    simp [hostauthCheckToken, hostauthPeekToken, found, used, past]

end Events

/-- A token that was turned away as expired is never let in again, in every run
in which the idle timeout is lowered only while there is no session. -/
theorem expired_sessions_stay_expired (sha256 : CStr → TokenHash)
    (events : List (Clock × SessionEvent))
    (keeps : Guarded (sessionStep sha256) (KeepsExpiry sha256) Sessions.fresh events) :
    Throughout (sessionStep sha256) (StaysExpired sha256) Sessions.fresh
      events := by
  have always := keeps.throughout SessionInv
    (fun _ _ inv condition => inv.step condition) sessionInv_fresh
  exact always.mono fun _ inv => inv.staysExpired

/-! ## Two runs -/

def sampleToken : CStr :=
  "4f1d7a9c03be62855d0e91c3a7f2b84610cc5e93d7a1f208"

/-- `pkicrypto_sha256_hex` on that token. -/
def sampleSha256 (_ : CStr) : TokenHash :=
  ⟨"276a1a7c0e26eba1362f2474b1bec794b51def4dad7163b5bce046e986928599", by decide⟩

def sampleLogin : SessionEvent :=
  .login (some sampleToken) "ann" "10.0.0.7" true

theorem first_bounded : 1000 ≤ 9223372036 := by decide

theorem second_bounded : 1500 ≤ 9223372036 := by decide

def usedAndExpired : List (Clock × SessionEvent) :=
  [(⟨1000, first_bounded⟩, sampleLogin),
    (⟨1500, second_bounded⟩, .check sampleToken true),
    (⟨2400, by decide⟩, .check sampleToken true),
    (⟨2500, by decide⟩, .restart)]

theorem expired_sessions_stay_expired_sample :
    (run (sessionStep sampleSha256) Sessions.fresh usedAndExpired).refused ≠ [] ∧
      Throughout (sessionStep sampleSha256) (StaysExpired sampleSha256)
        Sessions.fresh usedAndExpired := by
  refine ⟨by decide +kernel, expired_sessions_stay_expired _ _ ?_⟩
  apply Guarded.cons
  · refine ⟨by decide, ?_⟩
    intro token _ given
    cases given
  apply Guarded.cons
  · exact ⟨by decide +kernel, trivial⟩
  apply Guarded.cons
  · exact ⟨by decide +kernel, trivial⟩
  apply Guarded.cons
  · exact ⟨by decide +kernel, trivial⟩
  exact guarded_nil _ _

def loweredAndExpired : List (Clock × SessionEvent) :=
  [(⟨1000, by decide⟩, sampleLogin),
    (⟨1010, by decide⟩, .setIdle 60 true true),
    (⟨1020, by decide⟩, .check sampleToken true),
    (⟨1100, by decide⟩, .check sampleToken true),
    (⟨1200, by decide⟩, .restart)]

/-- The restart reads the expiry that the login had saved. -/
theorem lowered_timeout_revives_session : sampleSha256 sampleToken ∈ (run (sessionStep sampleSha256)
        Sessions.fresh loweredAndExpired).refused ∧
      (hostauthCheckToken sampleSha256 sampleToken ⟨1200, by decide⟩ true
        (run (sessionStep sampleSha256) Sessions.fresh loweredAndExpired)).2.isSome = true ∧
      ¬ Throughout (sessionStep sampleSha256) (StaysExpired sampleSha256)
        Sessions.fresh loweredAndExpired := by
  have refused : sampleSha256 sampleToken ∈ (run (sessionStep sampleSha256)
      Sessions.fresh loweredAndExpired).refused := by
    decide +kernel
  have letIn : (hostauthCheckToken sampleSha256 sampleToken
      ⟨1200, by decide⟩ true (run (sessionStep sampleSha256) Sessions.fresh
        loweredAndExpired)).2.isSome = true := by
    decide +kernel
  refine ⟨refused, letIn, ?_⟩
  intro always
  have last := always.last sampleToken refused ⟨1200, by decide⟩
    (by decide +kernel)
  rw [last.1 true] at letIn
  cases letIn

end Cix.Auth
