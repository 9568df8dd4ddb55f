import Cix.Auth.Expiry

/-!
# An ended session does not come back

A logout, a revocation and the use of a single-use token take the session out
of the table and save the table.  From then on its hash is neither in the table
nor in the file, whatever the clock does and however the timeout is changed:
the file is only ever written from the table, and the table gets sessions from
the file and from logins, whose tokens are new.

A call that finds no session in the table writes nothing.  A session that was
reaped may still be in the file then, and outlives the call.
-/

namespace Cix.Auth

open Cix.Lib Cix.Json List
open Cix.Ldap (Clock)

/-! ## Sessions without the ended ones -/

/-- The session has times that a double holds, its token was given out, and it
is none of the ended ones. -/
structure Admitted (ended : TokenHash → Prop) (s : Sessions) (m : Session) :
    Prop where
  timely : m.Timely
  isIssued : m.tokenHash ∈ s.issued
  notEnded : ¬ ended m.tokenHash

structure Without (ended : TokenHash → Prop) (s : Sessions) : Prop where
  table : ∀ i m, s.table.get i = some m → Admitted ended s m
  file : ∀ r ∈ fileSessions s.file, Admitted ended s r
  tableDistinct : ∀ i j a b, s.table.get i = some a →
    s.table.get j = some b → a.tokenHash = b.tokenHash → i = j
  fileDistinct : (fileSessions s.file).Pairwise fun a b => a.tokenHash ≠ b.tokenHash
  fileFits : (fileSessions s.file).length ≤ sessionMax
  endedIssued : ∀ hash, ended hash → hash ∈ s.issued

variable {ended : TokenHash → Prop} {s : Sessions}

variable {slot : Nat} {m : Session}

theorem without_fresh : Without (fun _ => False) Sessions.fresh where
  table := by
    intro i m held
    rw [Sessions.fresh, Slots.get_empty] at held
    cases held
  file := by
    intro r mem
    cases mem
  tableDistinct := by
    intro i j a b held
    rw [Sessions.fresh, Slots.get_empty] at held
    cases held
  fileDistinct := List.Pairwise.nil
  fileFits := Nat.zero_le _
  endedIssued := by
    intro hash isEnded
    cases isEnded

theorem Without.congr {s' : Sessions} (without : Without ended s)
    (table : s'.table = s.table) (file : s'.file = s.file)
    (issued : s'.issued = s.issued) : Without ended s' := by
  obtain ⟨inTable, inFile, tableDistinct, fileDistinct, fileFits, endedIssued⟩ := without
  refine ⟨?_, ?_, ?_, ?_, ?_, ?_⟩
  · intro i m held
    rw [table] at held
    obtain ⟨timely, isIssued, notEnded⟩ := inTable i m held
    exact ⟨timely, issued ▸ isIssued, notEnded⟩
  · intro r mem
    rw [file] at mem
    obtain ⟨timely, isIssued, notEnded⟩ := inFile r mem
    exact ⟨timely, issued ▸ isIssued, notEnded⟩
  · rw [table]
    exact tableDistinct
  · rw [file]
    exact fileDistinct
  · rw [file]
    exact fileFits
  · rw [issued]
    exact endedIssued

theorem Without.leave (without : Without ended s)
    {table : Slots Session sessionMax}
    (fewer : ∀ i m, table.get i = some m → s.table.get i = some m) :
    Without ended { s with table := table } where
  table := fun i m held => by
    obtain ⟨timely, isIssued, notEnded⟩ := without.table i m (fewer i m held)
    exact ⟨timely, isIssued, notEnded⟩
  file := fun r mem => by
    obtain ⟨timely, isIssued, notEnded⟩ := without.file r mem
    exact ⟨timely, isIssued, notEnded⟩
  tableDistinct := fun i j a b heldA heldB =>
    without.tableDistinct i j a b (fewer i a heldA) (fewer j b heldB)
  fileDistinct := without.fileDistinct
  fileFits := without.fileFits
  endedIssued := without.endedIssued

theorem Without.clear (without : Without ended s) (slot : Nat) :
    Without ended { s with table := s.table.put slot none } := by
  apply without.leave
  intro i m held
  rcases Slots.get_of_get_put held with ⟨_, nothing⟩ | ⟨_, old⟩
  · cases nothing
  · exact old

theorem Without.renew (without : Without ended s) {m' : Session}
    (held : s.table.get slot = some m) (same : m'.tokenHash = m.tokenHash)
    (timely : m'.Timely) :
    Without ended { s with table := s.table.put slot (some m') } := by
  have slots : ∀ i a, (s.table.put slot (some m')).get i = some a →
      ∃ a₀, s.table.get i = some a₀ ∧ a.tokenHash = a₀.tokenHash ∧
        a.Timely := by
    intro i a heldA
    rcases Slots.get_of_get_put heldA with ⟨atSlot, new⟩ | ⟨_, old⟩
    · cases new
      rw [atSlot]
      exact ⟨m, held, same, timely⟩
    · exact ⟨a, old, rfl, (without.table i a old).timely⟩
  refine ⟨?_, ?_, ?_, without.fileDistinct, without.fileFits, without.endedIssued⟩
  · intro i a heldA
    obtain ⟨a₀, heldA₀, hash, aTimely⟩ := slots i a heldA
    obtain ⟨_, isIssued, notEnded⟩ := without.table i a₀ heldA₀
    exact ⟨aTimely, hash ▸ isIssued, hash ▸ notEnded⟩
  · intro r mem
    obtain ⟨rTimely, isIssued, notEnded⟩ := without.file r mem
    exact ⟨rTimely, isIssued, notEnded⟩
  · intro i j a b heldA heldB sameHash
    obtain ⟨a₀, heldA₀, hashA, _⟩ := slots i a heldA
    obtain ⟨b₀, heldB₀, hashB, _⟩ := slots j b heldB
    exact without.tableDistinct i j a₀ b₀ heldA₀ heldB₀ (by rw [← hashA, sameHash, hashB])

theorem Without.issue (without : Without ended s)
    (unused : m.tokenHash ∉ s.issued) (timely : m.Timely) :
    Without ended { s with
      table := s.table.put slot (some m)
      issued := m.tokenHash :: s.issued } := by
  have later : ∀ {a}, Admitted ended s a → Admitted ended { s with
        table := s.table.put slot (some m)
        issued := m.tokenHash :: s.issued } a :=
    fun admitted => ⟨admitted.timely, mem_cons_of_mem _ admitted.isIssued, admitted.notEnded⟩
  have unlike : ∀ i a, s.table.get i = some a → a.tokenHash ≠ m.tokenHash := by
    intro i a held same
    exact unused (same ▸ (without.table i a held).isIssued)
  refine ⟨?_, fun r mem => later (without.file r mem), ?_, without.fileDistinct,
    without.fileFits, fun hash isEnded => mem_cons_of_mem _ (without.endedIssued hash isEnded)⟩
  · intro i a held
    rcases Slots.get_of_get_put held with ⟨_, new⟩ | ⟨_, old⟩
    · cases new
      refine ⟨timely, mem_cons_self, ?_⟩
      intro isEnded
      exact unused (without.endedIssued _ isEnded)
    · exact later (without.table i a old)
  · intro i j a b heldA heldB same
    rcases Slots.get_of_get_put heldA with ⟨atA, newA⟩ | ⟨_, oldA⟩
    · rcases Slots.get_of_get_put heldB with ⟨atB, _⟩ | ⟨_, oldB⟩
      · rw [atA, atB]
      · cases newA
        exact absurd same.symm (unlike j b oldB)
    · rcases Slots.get_of_get_put heldB with ⟨_, newB⟩ | ⟨_, oldB⟩
      · cases newB
        exact absurd same (unlike i a oldA)
      · exact without.tableDistinct i j a b oldA oldB same

theorem Without.load (without : Without ended s) (now : Clock) :
    Without ended (loadSessions now s) := by
  have fromFile : ∀ i m, (loadSessions now s).table.get i = some m → m ∈ fileSessions s.file := by
    intro i m held
    have mem := Slots.mem_of_mem_ofEntries (Slots.mem_entries_iff_get.mpr ⟨i, held⟩)
    exact mem_of_mem_filter mem
  have same : ∀ {a}, Admitted ended s a → Admitted ended (loadSessions now s) a :=
    fun admitted => ⟨admitted.timely, admitted.isIssued, admitted.notEnded⟩
  refine ⟨fun i m held => same (without.file m (fromFile i m held)),
    fun r mem => same (without.file r mem), ?_, without.fileDistinct,
    without.fileFits, without.endedIssued⟩
  intro i j a b heldA heldB sameHash
  have apart := without.fileDistinct.filter fun session => !lapsed s.savedIdle now session.expiresAt
  by_contra different
  rcases Nat.lt_or_gt_of_ne different with less | more
  · exact Slots.pairwise_ofEntries apart less heldA heldB sameHash
  · exact Slots.pairwise_ofEntries apart more heldB heldA sameHash.symm

/-! ## Saving -/

theorem Without.saveEnding (without : Without ended s) (now : Clock)
    {ended' : TokenHash → Prop}
    (absent : ∀ i m, s.table.get i = some m → ¬ ended' m.tokenHash)
    (issued : ∀ hash, ended' hash → hash ∈ s.issued) :
    Without ended' (saveSessions true now s) := by
  have timely : ∀ m ∈ s.table.entries.filter
      (fun session => !lapsed s.idle now session.expiresAt), m.Timely := by
    intro m mem
    obtain ⟨i, held⟩ := Slots.mem_entries_iff_get.mp (mem_of_mem_filter mem)
    exact (without.table i m held).timely
  have distinct : s.table.entries.Pairwise fun a b => a.tokenHash ≠ b.tokenHash := by
    apply Slots.entries_pairwise
    intro i j a b less heldA heldB same
    have sameSlot := without.tableDistinct i j a b heldA heldB same
    omega
  have adjusted : ∀ i m, (s.table.adjust fun _ session =>
      { session with savedExpiresAt := session.expiresAt }).get i = some m →
      ∃ m₀, s.table.get i = some m₀ ∧ m.tokenHash = m₀.tokenHash ∧
        m.expiresAt = m₀.expiresAt ∧ m.loggedInAt = m₀.loggedInAt := by
    intro i m held
    rw [Slots.get_adjust] at held
    obtain ⟨m₀, held₀, rfl⟩ := Option.map_eq_some_iff.mp held
    exact ⟨m₀, held₀, rfl, rfl, rfl⟩
  have admitted : ∀ {i m₀ m}, s.table.get i = some m₀ →
      m.tokenHash = m₀.tokenHash → m.expiresAt = m₀.expiresAt →
      m.loggedInAt = m₀.loggedInAt → Admitted ended' (saveSessions true now s) m := by
    intro i m₀ m held hash expires loggedIn
    have known := without.table i m₀ held
    refine ⟨?_, ?_, ?_⟩
    · rw [Session.Timely, expires, loggedIn]
      exact known.timely
    · rw [hash]
      exact known.isIssued
    · rw [hash]
      exact absent i m₀ held
  have fits : (fileSessions (some (sessionsText (s.table.entries.filter fun session =>
      !lapsed s.idle now session.expiresAt)))).length ≤ sessionMax := by
    rw [fileSessions_saved timely]
    calc ((s.table.entries.filter _).filterMap reloaded).length
        ≤ (s.table.entries.filter _).length := length_filterMap_le _ _
      _ ≤ s.table.entries.length := length_filter_le _ _
      _ ≤ sessionMax := s.table.length_entries_le
  refine ⟨?_, ?_, ?_, fileSessions_distinct timely (distinct.filter _), fits, issued⟩
  · intro i m held
    obtain ⟨m₀, held₀, hash, expires, loggedIn⟩ := adjusted i m held
    exact admitted held₀ hash expires loggedIn
  · intro r mem
    obtain ⟨m₀, saved, hash, expires, loggedIn⟩ := exists_saved timely mem
    obtain ⟨i, held⟩ := Slots.mem_entries_iff_get.mp (mem_of_mem_filter saved)
    exact admitted held hash expires loggedIn
  · intro i j a b heldA heldB same
    obtain ⟨a₀, heldA₀, hashA, _⟩ := adjusted i a heldA
    obtain ⟨b₀, heldB₀, hashB, _⟩ := adjusted j b heldB
    exact without.tableDistinct i j a₀ b₀ heldA₀ heldB₀ (by rw [← hashA, same, hashB])

theorem Without.save (without : Without ended s) (written : Bool)
    (now : Clock) : Without ended (saveSessions written now s) := by
  cases written with
  | true =>
    exact without.saveEnding now (fun i m held => (without.table i m held).notEnded)
      without.endedIssued
  | false => exact without

/-! ## Events -/

theorem deadline_timely (idle : Int32) (now : Clock) : (deadline idle now).natAbs ≤ 2 ^ 53 := by
  have bounded := now.bounded
  have low := idle.le_toInt
  have high := idle.toInt_lt
  rw [deadline]
  omega

section Events

variable {sha256 : CStr → TokenHash}

theorem Without.slide (without : Without ended s)
    (held : s.table.get slot = some m) (now : Clock) (written : Bool) :
    Without ended (slideSession slot m now written s) := by
  have renewed : Without ended { s with
      table := s.table.put slot (some { m with expiresAt := deadline s.idle now }) } :=
    without.renew held rfl ⟨deadline_timely s.idle now, (without.table slot m held).timely.2⟩
  unfold slideSession
  dsimp only
  split
  · exact renewed.save written now
  · exact renewed

theorem Without.check (without : Without ended s) (token : CStr) (now : Clock) (written : Bool) :
    Without ended (hostauthCheckToken sha256 token now written s).1 := by
  unfold hostauthCheckToken
  split
  · exact without
  next slot m found =>
    split
    · exact (without.clear slot).save written now
    · split
      · exact (without.clear slot).congr rfl rfl rfl
      · exact without.slide (hash_of_findSession found).1 now written

theorem Without.peek (without : Without ended s) (token : CStr) (now : Clock) :
    Without ended (hostauthPeekToken sha256 token now s).1 := by
  unfold hostauthPeekToken
  split
  · exact without
  · split
    · exact without.congr rfl rfl rfl
    · exact without

theorem Without.touch (without : Without ended s) (token : CStr) (now : Clock) (written : Bool) :
    Without ended (hostauthTouchToken sha256 token now written s) := by
  unfold hostauthTouchToken
  split
  · exact without
  · split
    · exact without
    next slot m found =>
      split
      · exact without
      · exact without.slide (hash_of_findSession found).1 now written

theorem Without.authorize (without : Without ended s) (token : CStr)
    (permission : Option CStr) (gating : Bool)
    (holds : BoundedStr 32 → Bool) (peeks : Bool) (now : Clock)
    (written : Bool) :
    Without ended (authorizeSession sha256 token permission gating holds
      peeks now written s).1 := by
  have answered : Without ended (if peeks then
      hostauthPeekToken sha256 token now s
    else hostauthCheckToken sha256 token now written s).1 := by
    split
    · exact without.peek token now
    · exact without.check token now written
  unfold authorizeSession
  split
  · exact without
  · split
    · exact without
    · dsimp only
      split
      next s' isAnswer =>
        rw [isAnswer] at answered
        exact answered
      next s' user isAnswer =>
        rw [isAnswer] at answered
        split
        · exact answered
        · exact answered

theorem Without.dropLapsed (without : Without ended s) (now : Clock) :
    Without ended (dropLapsed now s) :=
  without.leave fun _ _ held => Slots.get_of_get_keep held

theorem Without.login (without : Without ended s) {token : Option CStr}
    (fresh : ∀ t, token = some t → sha256 t ∉ s.issued)
    (username sourceIp : CStr) (now : Clock) (written : Bool) :
    Without ended (hostauthIssueSession sha256 token username sourceIp now written s) := by
  have dropped := without.dropLapsed now
  have bounded := now.bounded
  unfold hostauthIssueSession
  dsimp only
  split
  next slot t _ =>
    apply Without.save
    apply dropped.issue (fresh t rfl)
    refine ⟨deadline_timely _ now, ?_⟩
    dsimp only
    omega
  next => exact dropped

theorem Without.logout (without : Without ended s) (token : CStr) (now : Clock) (written : Bool) :
    Without ended (hostauthLogout sha256 token now written s) := by
  unfold hostauthLogout
  split
  · exact without
  · exact (without.clear _).save written now

theorem Without.revoke (without : Without ended s) (username : CStr)
    (now : Clock) (written : Bool) :
    Without ended (hostauthRevokeSessionsForUser username now written s) := by
  unfold hostauthRevokeSessionsForUser
  split
  · exact without
  · split
    · apply Without.save
      exact without.leave fun _ _ held => Slots.get_of_get_keep held
    · exact without

theorem Without.setIdle (without : Without ended s) (idle : Int32) (accepted written : Bool) :
    Without ended (hostauthSetIdle idle accepted written s) := by
  unfold hostauthSetIdle
  split
  · exact without
  · exact without.congr rfl rfl rfl

/-- What is assumed of an event: a new token is unlike every earlier one, and
the write that ends a session succeeds. -/
def EndsDurably (sha256 : CStr → TokenHash) (s : Sessions) (event : Clock × SessionEvent) : Prop :=
  match event.2 with
  | .login token _ _ _ => ∀ t, token = some t → sha256 t ∉ s.issued
  | .check _ written => s.idle = 0 → written = true
  | .authorize _ _ _ _ _ written => s.idle = 0 → written = true
  | .logout _ written => written = true
  | .revoke _ written => written = true
  | _ => True

theorem Without.step (without : Without ended s)
    {event : Clock × SessionEvent} (durably : EndsDurably sha256 s event) :
    Without ended (sessionStep sha256 s event) := by
  obtain ⟨now, kind⟩ := event
  have moved : Without ended { s with clock := now.seconds } := without.congr rfl rfl rfl
  unfold sessionStep
  cases kind with
  | login token username sourceIp written =>
    exact moved.login durably username sourceIp now written
  | check token written => exact moved.check token now written
  | peek token => exact moved.peek token now
  | touch token written => exact moved.touch token now written
  | authorize token permission gating holds peeks written =>
    exact moved.authorize token permission gating holds peeks now written
  | logout token written => exact moved.logout token now written
  | revoke username written => exact moved.revoke username now written
  | reap => exact moved.dropLapsed now
  | setIdle idle accepted written => exact moved.setIdle idle accepted written
  | restart => exact moved.load now

/-! ## Endings -/

def InFile (s : Sessions) (hash : TokenHash) : Prop :=
  ∃ r ∈ fileSessions s.file, r.tokenHash = hash

/-- What takes the token back: a logout, a revocation of the user that it was
given to, and with a zero timeout the use that is let in.  The table need not
hold its session any more. -/
def Ends (sha256 : CStr → TokenHash) (s : Sessions) (token : CStr) : SessionEvent → Prop
  | .logout other _ => other = token
  | .revoke username _ =>
    username.length ≠ 0 ∧
      (∀ i m, s.table.get i = some m → m.tokenHash = sha256 token → m.username.str = username) ∧
      ∀ r ∈ fileSessions s.file, r.tokenHash = sha256 token → r.username.str = username
  | .check other _ =>
    s.idle = 0 ∧ other = token ∧ (findSession sha256 token s).isSome = true
  | .authorize other permission gating _ peeks _ =>
    permission ≠ none ∧ permission ≠ some (CStr.ofString "public") ∧
      gating = true ∧ peeks = false ∧ s.idle = 0 ∧ other = token ∧
        (findSession sha256 token s).isSome = true
  | _ => False

/-- The event finds nothing to end in the table, and so writes nothing, while
the file still holds the session. -/
def Missed (sha256 : CStr → TokenHash) (s : Sessions) (token : CStr) : SessionEvent → Prop
  | .logout _ _ => findSession sha256 token s = none ∧ InFile s (sha256 token)
  | .revoke username _ =>
    (∀ i m, s.table.get i = some m → m.username.str ≠ username) ∧ InFile s (sha256 token)
  | _ => False

theorem Without.absent (without : Without ended s) {hash : TokenHash}
    (notHeld : ∀ i m, s.table.get i = some m → m.tokenHash ≠ hash)
    (notSaved : ¬ InFile s hash) (issued : hash ∈ s.issued) :
    Without (fun other => other = hash) s := by
  refine ⟨?_, ?_, without.tableDistinct, without.fileDistinct, without.fileFits, ?_⟩
  · intro i m held
    obtain ⟨timely, isIssued, _⟩ := without.table i m held
    exact ⟨timely, isIssued, notHeld i m held⟩
  · intro r mem
    obtain ⟨timely, isIssued, _⟩ := without.file r mem
    exact ⟨timely, isIssued, fun same => notSaved ⟨r, mem, same⟩⟩
  · intro other same
    rw [same]
    exact issued

theorem not_held_of_findSession {token : CStr} (given : token.length ≠ 0)
    (missing : findSession sha256 token s = none) {i : Nat} (held : s.table.get i = some m) :
    m.tokenHash ≠ sha256 token := by
  rw [findSession, if_neg given] at missing
  exact of_decide_eq_false (Slots.find_eq_none missing held)

theorem Without.endSlot (without : Without ended s)
    (held : s.table.get slot = some m) (now : Clock) :
    Without (fun hash => hash = m.tokenHash) (saveSessions true now
      { s with table := s.table.put slot none }) := by
  apply (without.clear slot).saveEnding now
  · intro i a heldA same
    rcases Slots.get_of_get_put heldA with ⟨_, nothing⟩ | ⟨other, old⟩
    · cases nothing
    · exact other (without.tableDistinct i slot a m old held same)
  · intro hash isHash
    rw [isHash]
    exact (without.table slot m held).isIssued

theorem Without.endLogout (without : Without ended s) {token : CStr}
    (given : token.length ≠ 0) (issued : sha256 token ∈ s.issued)
    (reached : ¬ (findSession sha256 token s = none ∧ InFile s (sha256 token))) (now : Clock) :
    Without (fun hash => hash = sha256 token) (hostauthLogout sha256 token now true s) := by
  unfold hostauthLogout
  split
  next missing =>
    apply without.absent (fun _ _ => not_held_of_findSession given missing) _ issued
    exact fun saved => reached ⟨missing, saved⟩
  next slot m found =>
    obtain ⟨held, hash⟩ := hash_of_findSession found
    rw [← hash]
    exact without.endSlot held now

theorem Without.endCheck (without : Without ended s) {token : CStr} (single : s.idle = 0)
    (found : (findSession sha256 token s).isSome = true) (now : Clock) :
    Without (fun hash => hash = sha256 token) (hostauthCheckToken sha256 token now true s).1 := by
  obtain ⟨result, isResult⟩ := Option.isSome_iff_exists.mp found
  obtain ⟨slot, m⟩ := result
  obtain ⟨held, hash⟩ := hash_of_findSession isResult
  simp only [hostauthCheckToken, isResult, if_pos single]
  rw [← hash]
  exact without.endSlot held now

theorem get_keep {test : Session → Bool} {i : Nat} {m : Session}
    (held : (s.table.keep test).get i = some m) : test m = true := by
  simp only [Slots.get, Slots.keep, getElem?_map] at held
  cases cell : s.table.cells[i]? with
  | none => simp [cell] at held
  | some found =>
    simp only [cell, Option.map_some, Option.join_some] at held
    exact (Option.filter_eq_some_iff.mp held).2

theorem Without.endRevoke (without : Without ended s) {username : CStr} {hash : TokenHash}
    (named : username.length ≠ 0) (issued : hash ∈ s.issued)
    (owned : ∀ i m, s.table.get i = some m → m.tokenHash = hash → m.username.str = username)
    (reached : ¬ ((∀ i m, s.table.get i = some m → m.username.str ≠ username) ∧ InFile s hash))
    (now : Clock) :
    Without (fun other => other = hash)
      (hostauthRevokeSessionsForUser username now true s) := by
  rw [hostauthRevokeSessionsForUser, if_neg named]
  split
  next =>
    have kept : Without ended { s with
        table := s.table.keep fun session =>
          session.username.str ≠ username } :=
      without.leave fun _ _ heldA => Slots.get_of_get_keep heldA
    apply kept.saveEnding now
    · intro i a heldA same
      have other := of_decide_eq_true (get_keep heldA)
      exact other (owned i a (Slots.get_of_get_keep heldA) same)
    · intro other isHash
      rw [isHash]
      exact issued
  next unmatched =>
    have nobody : ∀ i m, s.table.get i = some m → m.username.str ≠ username := by
      intro i m held isUser
      apply unmatched
      rw [any_eq_true]
      exact ⟨m, Slots.mem_entries_iff_get.mpr ⟨i, held⟩, decide_eq_true isUser⟩
    apply without.absent _ _ issued
    · exact fun i m held same => nobody i m held (owned i m held same)
    · exact fun saved => reached ⟨nobody, saved⟩

theorem Without.ending (without : Without ended s)
    {event : Clock × SessionEvent} (durably : EndsDurably sha256 s event)
    {token : CStr} (given : token.length ≠ 0) (issued : sha256 token ∈ s.issued)
    (ends : Ends sha256 s token event.2) (reached : ¬ Missed sha256 s token event.2) :
    Without (fun other => other = sha256 token) (sessionStep sha256 s event) := by
  obtain ⟨now, kind⟩ := event
  have moved : Without ended { s with clock := now.seconds } := without.congr rfl rfl rfl
  unfold sessionStep
  cases kind with
  | logout other written =>
    have isToken : other = token := ends
    have isWritten : written = true := durably
    subst isToken isWritten
    exact moved.endLogout given issued reached now
  | revoke username written =>
    obtain ⟨named, owned, _⟩ := ends
    have isWritten : written = true := durably
    subst isWritten
    exact moved.endRevoke named issued owned reached now
  | check other written =>
    obtain ⟨single, isToken, found⟩ := ends
    have isWritten : written = true := durably single
    subst isToken isWritten
    exact moved.endCheck single found now
  | authorize other permission gating holds peeks written =>
    obtain ⟨required, gated, isGating, checks, single, isToken, found⟩ := ends
    have isWritten : written = true := durably single
    subst isToken isWritten isGating checks
    have checked := moved.endCheck single found now
    cases permission with
    | none => exact absurd rfl required
    | some permission =>
      have notPublic : ¬ (permission = CStr.ofString "public" ∨ true = false) := by
        rintro (isPublic | impossible)
        · exact gated (congrArg some isPublic)
        · cases impossible
      simp only [serveSession, authorizeSession, if_neg notPublic, Bool.false_eq_true, if_false]
      split
      next s' isAnswer =>
        rw [isAnswer] at checked
        exact checked
      next s' user isAnswer =>
        rw [isAnswer] at checked
        split
        · exact checked
        · exact checked
  | login token username sourceIp written => cases ends
  | peek token => cases ends
  | touch token written => cases ends
  | reap => cases ends
  | setIdle idle accepted written => cases ends
  | restart => cases ends

def LockedOut (sha256 : CStr → TokenHash) (token : CStr) (s : Sessions) :
    Prop :=
  ∀ now : Clock, (∀ written, (hostauthCheckToken sha256 token now written s).2 = none) ∧
    (hostauthPeekToken sha256 token now s).2 = none ∧
    ∀ permission holds peeks written, permission ≠ CStr.ofString "public" →
        (authorizeSession sha256 token (some permission) true holds peeks now
          written s).2 = .noSession

theorem lockedOut_of_absent {token : CStr}
    (absent : ∀ i m, s.table.get i = some m → m.tokenHash ≠ sha256 token) :
    LockedOut sha256 token s := by
  have missing : findSession sha256 token s = none := by
    cases found : findSession sha256 token s with
    | none => rfl
    | some result =>
      obtain ⟨slot, m⟩ := result
      obtain ⟨held, hash⟩ := hash_of_findSession found
      exact absurd hash (absent slot m held)
  intro now
  refine ⟨?_, ?_, ?_⟩
  · intro written
    simp only [hostauthCheckToken, missing]
  · simp only [hostauthPeekToken, missing]
  · intro permission holds peeks written gated
    cases peeks with
    | true => simp [authorizeSession, gated, hostauthPeekToken, missing]
    | false => simp [authorizeSession, gated, hostauthCheckToken, missing]

/-! ## A call that missed -/

/-- The timeout is set to zero, and the daemon starts again. -/
def revival (now : Clock) : List (Clock × SessionEvent) :=
  [(now, .setIdle 0 true true), (now, .restart)]

theorem file_of_missed {token : CStr} {event : Clock × SessionEvent}
    (ends : Ends sha256 s token event.2) (missed : Missed sha256 s token event.2) :
    (sessionStep sha256 s event).file = s.file ∧ InFile s (sha256 token) := by
  obtain ⟨now, kind⟩ := event
  cases kind with
  | logout other written =>
    obtain ⟨missing, saved⟩ := missed
    have isToken : other = token := ends
    have missing' : findSession sha256 token { s with clock := now.seconds } = none := missing
    refine ⟨?_, saved⟩
    simp only [sessionStep, serveSession, hostauthLogout, isToken, missing']
  | revoke username written =>
    obtain ⟨nobody, saved⟩ := missed
    have unmatched : (s.table.entries.any fun session =>
        session.username.str = username) = false := by
      rw [any_eq_false]
      intro m mem
      obtain ⟨i, held⟩ := Slots.mem_entries_iff_get.mp mem
      simpa using nobody i m held
    refine ⟨?_, saved⟩
    simp only [sessionStep, serveSession, hostauthRevokeSessionsForUser, unmatched]
    split <;> rfl
  | login token username sourceIp written => cases missed
  | check token written => cases missed
  | peek token => cases missed
  | touch token written => cases missed
  | authorize token permission gating holds peeks written => cases missed
  | reap => cases missed
  | setIdle idle accepted written => cases missed
  | restart => cases missed

/-- A session that the file still holds is let in after `revival`. -/
theorem not_lockedOut_revival {token : CStr} (given : token.length ≠ 0)
    (fits : (fileSessions s.file).length ≤ sessionMax) (saved : InFile s (sha256 token))
    (now : Clock) : ¬ LockedOut sha256 token (run (sessionStep sha256) s (revival now)) := by
  obtain ⟨r, mem, hash⟩ := saved
  have table : (run (sessionStep sha256) s (revival now)).table =
      Slots.ofEntries sessionMax (fileSessions s.file) := by
    have unlapsed : ∀ m : Session, lapsed 0 now m.expiresAt = false := fun _ => rfl
    simp [revival, run, sessionStep, serveSession, hostauthSetIdle, loadSessions, unlapsed]
  have idle : (run (sessionStep sha256) s (revival now)).idle = 0 := rfl
  intro lockedOut
  have refused := (lockedOut now).1 true
  cases found : findSession sha256 token (run (sessionStep sha256) s (revival now)) with
  | none =>
    have inTable : r ∈ (run (sessionStep sha256) s (revival now)).table.entries := by
      rw [table, Slots.entries_ofEntries fits]
      exact mem
    obtain ⟨i, held⟩ := Slots.mem_entries_iff_get.mp inTable
    exact not_held_of_findSession given found held hash
  | some result =>
    simp only [hostauthCheckToken, found, idle, if_true] at refused
    cases refused

end Events

/-- A logout, a revocation or a single use locks the token out for good, unless
the table had lost its session while the file still held it: then nothing is
written, and a restart may let it in again. -/
theorem ended_sessions_stay_out_iff (sha256 : CStr → TokenHash)
    (earlier : List (Clock × SessionEvent)) (event : Clock × SessionEvent) (token : CStr)
    (durably : Guarded (sessionStep sha256) (EndsDurably sha256) Sessions.fresh
      (earlier ++ [event]))
    (given : token.length ≠ 0)
    (issued : sha256 token ∈ (run (sessionStep sha256) Sessions.fresh earlier).issued)
    (ends : Ends sha256 (run (sessionStep sha256) Sessions.fresh earlier) token event.2) :
    (∀ later, Guarded (sessionStep sha256) (EndsDurably sha256)
        (run (sessionStep sha256) Sessions.fresh (earlier ++ [event])) later →
      LockedOut sha256 token (run (sessionStep sha256) Sessions.fresh
        (earlier ++ event :: later))) ↔
      ¬ Missed sha256 (run (sessionStep sha256) Sessions.fresh earlier) token event.2 := by
  have before : Without (fun _ => False) (run (sessionStep sha256) Sessions.fresh earlier) :=
    run_invariant _ (fun _ _ without condition => without.step condition)
      without_fresh durably.initial
  have here : EndsDurably sha256 (run (sessionStep sha256) Sessions.fresh earlier) event :=
    durably earlier event [] rfl
  constructor
  · intro lockedOut missed
    obtain ⟨sameFile, saved⟩ := file_of_missed ends missed
    have after := before.step here
    have still : InFile (sessionStep sha256
        (run (sessionStep sha256) Sessions.fresh earlier) event) (sha256 token) := by
      rw [InFile, sameFile]
      exact saved
    apply not_lockedOut_revival given after.fileFits still event.1
    have out := lockedOut (revival event.1)
      (Guarded.cons trivial (Guarded.cons trivial (guarded_nil _ _)))
    rw [run_append, run_cons] at out
    exact out
  · intro reached later laterDurably
    have after := before.ending here given issued ends reached
    rw [run_append, run_cons]
    have isRun : run (sessionStep sha256) Sessions.fresh (earlier ++ [event]) =
        sessionStep sha256 (run (sessionStep sha256) Sessions.fresh earlier) event := by
      rw [run_append, run_cons, run_nil]
    rw [isRun] at laterDurably
    have atEnd := run_invariant (Without fun other => other = sha256 token)
      (fun _ _ without condition => without.step condition) after laterDurably
    apply lockedOut_of_absent
    intro i m held
    exact (atEnd.table i m held).notEnded

theorem sample_given : sampleToken.length ≠ 0 := by decide

def loggedOut : List (Clock × SessionEvent) :=
  [(⟨1000, first_bounded⟩, sampleLogin),
    (⟨1500, second_bounded⟩, .logout sampleToken true),
    (⟨1600, by decide⟩, .restart)]

theorem ended_sessions_stay_out_sample : LockedOut sampleSha256 sampleToken
      (run (sessionStep sampleSha256) Sessions.fresh loggedOut) := by
  have stays := ended_sessions_stay_out_iff sampleSha256 (loggedOut.take 1)
    (⟨1500, second_bounded⟩, .logout sampleToken true) sampleToken
    (Guarded.cons (fun _ _ given => by cases given) (Guarded.cons rfl (guarded_nil _ _)))
    sample_given (by decide +kernel) rfl
  apply stays.mpr _ (loggedOut.drop 2) (Guarded.cons trivial (guarded_nil _ _))
  rintro ⟨missing, _⟩
  exact absurd missing (by decide +kernel)

/-- The timeout is lowered, the next request moves the expiry in memory back,
and the session is reaped before its user logs out. -/
def reapedAndLoggedOut : List (Clock × SessionEvent) :=
  loweredAndExpired.take 3 ++ [(⟨1110, by decide⟩, .reap),
    (⟨1210, by decide⟩, .logout sampleToken true), (⟨1310, by decide⟩, .restart)]

theorem reaped_session_outlives_logout :
    Guarded (sessionStep sampleSha256) (EndsDurably sampleSha256) Sessions.fresh
        reapedAndLoggedOut ∧
      sampleSha256 sampleToken ∈ (run (sessionStep sampleSha256) Sessions.fresh
        (reapedAndLoggedOut.take 4)).issued ∧
      Ends sampleSha256 (run (sessionStep sampleSha256) Sessions.fresh
        (reapedAndLoggedOut.take 4)) sampleToken (.logout sampleToken true) ∧
      ¬ LockedOut sampleSha256 sampleToken (run (sessionStep sampleSha256) Sessions.fresh
        reapedAndLoggedOut) := by
  refine ⟨?_, by decide +kernel, rfl, ?_⟩
  · apply Guarded.cons
    · intro t _ given
      cases given
    exact Guarded.cons trivial (Guarded.cons (fun _ => rfl) (Guarded.cons trivial
      (Guarded.cons rfl (Guarded.cons trivial (guarded_nil _ _)))))
  · intro lockedOut
    have refused := (lockedOut ⟨1320, by decide⟩).1 true
    have letIn : (hostauthCheckToken sampleSha256 sampleToken ⟨1320, by decide⟩ true
        (run (sessionStep sampleSha256) Sessions.fresh reapedAndLoggedOut)).2.isSome = true := by
      decide +kernel
    rw [refused] at letIn
    cases letIn

end Cix.Auth
