import Cix.Lib.Cursor

/-!
# Packets of keys and signatures

`daemon/src/pgpverify.c` reads an armored key and an armored signature after
the armor is taken off.  Every read goes through the `rd_*` helpers; `pkt_read`
takes a packet apart, `key_parse` walks over packets to the first public key,
and `pgp_clearsign_verify` reads one signature packet with its two areas of
subpackets.
-/

namespace Cix.Pgp

open Cix.Lib

/-- The results of `enum pgp_verify_result` that the walks give. -/
inductive VerifyResult where
  | malformed
  | unsupported
  | internal
  deriving DecidableEq

/-- A result with the text of `seterr`. -/
abbrev Report := VerifyResult × String

structure Stretch where
  (pos len : Int)
  deriving DecidableEq

structure Packet where
  tag : Nat
  body : Stretch
  deriving DecidableEq

structure Key where
  (n e : Stretch)
  fpr : List UInt8

/-- What the verification takes from a signature packet; the metadata is the
first `metaLen` bytes of the body. -/
structure Signature where
  body : Stretch
  hashalgo : Nat
  metaLen : Int
  mpi : Stretch

section Readers

variable (a : Arithmetic) (area : Area)

/-- The length octets of `pkt_read` behind the first octet `c`. -/
def packetLength (c : Nat) (r : Cursor) : Outcome Unit (Int × Cursor) :=
  if c &&& 0x40 ≠ 0 then
    (readU8 a area () r).bind fun (l1, r) =>
      if l1 < 192 then .ok (l1, r)
      else if l1 < 224 then
        (readU8 a area () r).bind fun (l2, r) =>
          .ok (a 64 (a 64 (a 64 (a 32 (l1 - 192) * 2 ^ 8) + l2) + 192), r)
      else if l1 = 255 then readU32 a area () r
      else .refused ()
  else if c &&& 0x03 = 0 then
    (readU8 a area () r).bind fun (l1, r) => .ok (l1, r)
  else if c &&& 0x03 = 1 then readU16 a area () r
  else if c &&& 0x03 = 2 then readU32 a area () r
  else .refused ()

def packetTag (c : Nat) : Nat :=
  if c &&& 0x40 ≠ 0 then c &&& 0x3f else (c >>> 2) &&& 0x0f

def pktRead (r : Cursor) : Outcome Unit (Packet × Cursor) :=
  (readU8 a area () r).bind fun (c, r) =>
    if c &&& 0x80 = 0 then .refused ()
    else
      (packetLength a area c r).bind fun (len, r) =>
        if len > r.left then .refused ()
        else .ok (⟨packetTag c, ⟨r.pos, len⟩⟩, r.advance a len)

def rdMpi (e : Report) (r : Cursor) : Outcome Report (Stretch × Cursor) :=
  (readU16 a area e r).bind fun (bits, r) =>
    let bytes := a 32 (bits + 7) / 8
    if r.left < bytes then .refused e
    else .ok (⟨r.pos, bytes⟩, r.advance a bytes)

def bytesOf (s : Stretch) : List UInt8 :=
  (area.bytes.drop s.pos.toNat).take s.len.toNat

/-- `key_fingerprint`, where the library computes SHA-1. -/
def keyFingerprint (sha1 : List UInt8 → Option (List UInt8))
    (body : List UInt8) : Option (List UInt8) :=
  sha1 (0x99 :: UInt8.ofNat (body.length / 2 ^ 8) :: UInt8.ofNat body.length :: body)

def truncatedKey : Report :=
  (.malformed, "truncated public-key packet")

def truncatedMaterial : Report :=
  (.malformed, "truncated RSA key material")

/-- What `key_parse` does with a public-key packet. -/
def publicKey (sha1 : List UInt8 → Option (List UInt8)) (body : Stretch) :
    Outcome Report (Key × Cursor) :=
  (readU8 a area truncatedKey ⟨body.pos, body.len⟩).bind fun (ver, b) =>
    if ver ≠ 4 then
      .refused (.unsupported, s!"public key is version {ver}, only version 4 is supported")
    else
      (skip a 4 truncatedKey b).bind fun (_, b) =>
        (readU8 a area truncatedKey b).bind fun (algo, b) =>
          if algo ≠ 1 then
            .refused (.unsupported,
              s!"public key algorithm {algo} is not RSA, which is all this verifies")
          else
            (rdMpi a area truncatedMaterial b).bind fun (n, b) =>
              (rdMpi a area truncatedMaterial b).bind fun (e, b) =>
                match keyFingerprint sha1 (bytesOf area body) with
                | none => .refused (.internal, "could not compute the key fingerprint")
                | some fpr => .ok (⟨n, e, fpr⟩, b)

/-- `key_parse`, given so many turns of its loop. -/
def keyParse (sha1 : List UInt8 → Option (List UInt8)) :
    Nat → Cursor → Outcome Report (Key × Cursor)
  | 0, _ => .unending
  | turns + 1, r =>
    ((pktRead a area r).reported (VerifyResult.malformed,
        "no public-key packet in the armored key")).bind fun (p, r) =>
      if p.tag ≠ 6 then keyParse sha1 turns r
      else publicKey a area sha1 p.body

def truncatedSignature : Report :=
  (.malformed, "truncated signature packet")

/-- The fields that `pgp_clearsign_verify` reads from a signature packet. -/
def signatureFields (body : Stretch) : Outcome Report (Signature × Cursor) :=
  (readU8 a area truncatedSignature ⟨body.pos, body.len⟩).bind fun (ver, b) =>
    (readU8 a area truncatedSignature b).bind fun (sigtype, b) =>
      (readU8 a area truncatedSignature b).bind fun (pkalgo, b) =>
        (readU8 a area truncatedSignature b).bind fun (hashalgo, b) =>
          (readU16 a area truncatedSignature b).bind fun (hlen, b) =>
            if ver ≠ 4 then
              .refused (.unsupported, s!"signature is version {ver}, only version 4 is supported")
            else if sigtype ≠ 1 ∧ sigtype ≠ 0 then
              .refused (.unsupported,
                s!"signature type 0x{hexDigits sigtype} is not a document signature")
            else if pkalgo ≠ 1 then
              .refused (.unsupported,
                s!"signature algorithm {pkalgo} is not RSA, which is all this verifies")
            else if hashalgo ≠ 8 ∧ hashalgo ≠ 9 ∧ hashalgo ≠ 10 then
              .refused (.unsupported, s!"hash algorithm {hashalgo} is not supported")
            else
              (skip a hlen truncatedSignature b).bind fun (_, b) =>
                (readU16 a area truncatedSignature b).bind fun (ulen, b) =>
                  (skip a ulen truncatedSignature b).bind fun (_, b) =>
                    (skip a 2 truncatedSignature b).bind fun (_, b) =>
                      (rdMpi a area truncatedSignature b).bind fun (mpi, b) =>
                        .ok (⟨body, hashalgo, a 64 (6 + hlen), mpi⟩, b)
where
  /-- `%02x` of an octet. -/
  hexDigits (octet : Nat) : String :=
    String.ofList [Nat.digitChar (octet / 16), Nat.digitChar (octet % 16)]

/-- The part of `pgp_clearsign_verify` that takes the signature apart. -/
def signatureRead (r : Cursor) : Outcome Report (Signature × Cursor) :=
  let missing := (VerifyResult.malformed, "signature armor does not contain a signature packet")
  ((pktRead a area r).reported missing).bind fun (p, _) =>
    if p.tag ≠ 2 then .refused missing else signatureFields a area p.body

end Readers

variable {area : Area} {r : Cursor}

structure Stretch.Within (s : Stretch) (area : Area) : Prop where
  pos_nonneg : 0 ≤ s.pos
  len_nonneg : 0 ≤ s.len
  inside : s.pos + s.len ≤ area.bytes.length

theorem sound_packetLength (within : r.Within area) (c : Nat) :
    Sound r (fun a => packetLength a area c r) fun len _ => 0 ≤ len := by
  have octet := sound_readU8 within ()
  have longest : Sound r (fun a => readU32 a area () r) fun len _ => 0 ≤ len :=
    (sound_readU32 within ()).mono fun _ _ _ small => small.1
  simp only [packetLength]
  split
  · refine octet.bind fun l1 r' small continues => ?_
    have within' := within.continues continues
    dsimp only
    split
    · exact Sound.ok continues.left_nonneg (by omega)
    · split
      · refine (sound_readU8 within' ()).bind fun l2 r'' small' continues' => ?_
        have exact' : ∀ a : Arithmetic, a = wrapping ∨ a = unbounded →
            a 64 (a 64 (a 64 (a 32 (l1 - 192) * 2 ^ 8) + l2) + 192) =
              (l1 - 192) * 2 ^ 8 + l2 + 192 := by
          rintro a (rfl | rfl)
          · simp only [wrapping]
            omega
          · rfl
        refine ⟨?_, ⟨Int.le_refl _, continues'.left_nonneg, rfl⟩, ?_⟩
        · simp only [exact' wrapping (Or.inl rfl),
            exact' unbounded (Or.inr rfl)]
        · simp only [unbounded]
          omega
      · split
        · exact (sound_readU32 within' ()).mono fun _ _ _ small' => small'.1
        · exact Sound.refused ()
  · split
    · refine octet.bind fun l1 r' small continues => ?_
      exact Sound.ok continues.left_nonneg (by omega)
    · split
      · exact (sound_readU16 within ()).mono fun _ _ _ small => small.1
      · split
        · exact longest
        · exact Sound.refused ()

theorem sound_pktRead (within : r.Within area) : Sound r (fun a => pktRead a area r) fun p next =>
      r.pos < p.body.pos ∧ 0 ≤ p.body.len ∧ p.body.pos + p.body.len = next.pos := by
  refine (sound_readU8 within ()).bind fun c r' octet continues => ?_
  have within' := within.continues continues
  dsimp only
  split
  · exact Sound.refused ()
  · refine (sound_packetLength within' c).bind fun len r'' nonneg continues' => ?_
    have forward := continues'.forward
    dsimp only
    split
    · exact Sound.refused ()
    · exact sound_advance (within'.continues continues') nonneg (by omega) rfl
        ⟨by simp only; omega, nonneg, rfl⟩

theorem sound_rdMpi (within : r.Within area) (e : Report) :
    Sound r (fun a => rdMpi a area e r) fun s _ => s.Within area := by
  refine (sound_readU16 within e).bind fun bits r' small continues => ?_
  have within' := within.continues continues
  have exact' : wrapping 32 (bits + 7) = unbounded 32 (bits + 7) :=
    wrapping_of_fits (by omega) (by omega)
  by_cases short : r'.left < unbounded 32 (bits + 7) / 8
  · refine ⟨?_, ?_⟩
    · simp only [exact', if_pos short]
    · simp only [if_pos short]
      trivial
  · obtain ⟨same, further⟩ := within'.advance
      (n := unbounded 32 (bits + 7) / 8) (by simp only [unbounded]; omega)
      (by omega)
    have inside := within'.inside
    refine ⟨?_, ?_⟩
    · simp only [exact', if_neg short, same]
    · simp only [if_neg short]
      exact ⟨further, within'.pos_nonneg, by simp only [unbounded]; omega,
        by simp only; omega⟩

theorem Stretch.Within.cursor {s : Stretch} (within : s.Within area) :
    Cursor.Within ⟨s.pos, s.len⟩ area :=
  ⟨within.pos_nonneg, within.len_nonneg, within.inside⟩

theorem sound_publicKey (sha1 : List UInt8 → Option (List UInt8))
    {body : Stretch} (within : body.Within area) :
    Sound ⟨body.pos, body.len⟩ (fun a => publicKey a area sha1 body)
      fun key _ => key.n.Within area ∧ key.e.Within area := by
  refine (sound_readU8 within.cursor truncatedKey).bind fun ver r₁ _ c₁ => ?_
  have w₁ := within.cursor.continues c₁
  dsimp only
  split
  · exact Sound.refused _
  refine (sound_skip w₁ (by omega) truncatedKey).bind fun _ r₂ _ c₂ => ?_
  have w₂ := w₁.continues c₂
  refine (sound_readU8 w₂ truncatedKey).bind fun algo r₃ _ c₃ => ?_
  have w₃ := w₂.continues c₃
  dsimp only
  split
  · exact Sound.refused _
  refine (sound_rdMpi w₃ truncatedMaterial).bind fun n r₄ nWithin c₄ => ?_
  have w₄ := w₃.continues c₄
  refine (sound_rdMpi w₄ truncatedMaterial).bind fun e r₅ eWithin c₅ => ?_
  dsimp only
  split
  · exact Sound.refused _
  · exact Sound.ok c₅.left_nonneg ⟨nWithin, eWithin⟩

theorem sound_signatureFields {body : Stretch} (within : body.Within area) :
    Sound ⟨body.pos, body.len⟩ (fun a => signatureFields a area body)
      fun sig _ => sig.mpi.Within area := by
  refine (sound_readU8 within.cursor _).bind fun ver r₁ _ c₁ => ?_
  have w₁ := within.cursor.continues c₁
  refine (sound_readU8 w₁ _).bind fun sigtype r₂ _ c₂ => ?_
  have w₂ := w₁.continues c₂
  refine (sound_readU8 w₂ _).bind fun pkalgo r₃ _ c₃ => ?_
  have w₃ := w₂.continues c₃
  refine (sound_readU8 w₃ _).bind fun hashalgo r₄ _ c₄ => ?_
  have w₄ := w₃.continues c₄
  refine (sound_readU16 w₄ _).bind fun hlen r₅ hlenFits c₅ => ?_
  have w₅ := w₄.continues c₅
  dsimp only
  iterate 4
    split
    · exact Sound.refused _
  refine (sound_skip w₅ hlenFits.1 _).bind fun _ r₆ _ c₆ => ?_
  have w₆ := w₅.continues c₆
  refine (sound_readU16 w₆ _).bind fun ulen r₇ ulenFits c₇ => ?_
  have w₇ := w₆.continues c₇
  refine (sound_skip w₇ ulenFits.1 _).bind fun _ r₈ _ c₈ => ?_
  have w₈ := w₇.continues c₈
  refine (sound_skip w₈ (by omega) _).bind fun _ r₉ _ c₉ => ?_
  have w₉ := w₈.continues c₉
  refine (sound_rdMpi w₉ _).bind fun mpi r₁₀ mpiWithin c₁₀ => ?_
  have fits : wrapping 64 (6 + hlen) = unbounded 64 (6 + hlen) :=
    wrapping_of_fits (by omega) (by omega)
  refine ⟨?_, ⟨Int.le_refl _, c₁₀.left_nonneg, rfl⟩, mpiWithin⟩
  simp only [fits]

/-- A reader gives what it would give over the integers, it comes to an end
without an access outside of the area, and what it gives is as described. -/
structure Safe {ε α : Type} (read : Arithmetic → Outcome ε (α × Cursor))
    (holds : α → Cursor → Prop) : Prop where
  same : read wrapping = read unbounded
  ends : (read wrapping).Ends
  held : ∀ v next, read wrapping = .ok (v, next) → holds v next

theorem safe_of_sound {ε α : Type}
    {read : Arithmetic → Outcome ε (α × Cursor)} {holds : α → Cursor → Prop}
    (sound : Sound r read holds) :
    Safe read fun v next => r.Continues next ∧ holds v next where
  same := sound.1
  ends := sound.1 ▸ sound.2.ends
  held := by
    intro v next result
    have leaves := sound.2
    rw [← sound.1, result] at leaves
    exact leaves

theorem safe_pktRead (within : r.Within area) : Safe (fun a => pktRead a area r) fun p next =>
      r.Continues next ∧ r.pos < p.body.pos ∧ 0 ≤ p.body.len ∧
        p.body.pos + p.body.len = next.pos :=
  safe_of_sound (sound_pktRead within)

theorem Stretch.within_of_packet {p : Packet} {next : Cursor}
    (within : r.Within area) (continues : r.Continues next)
    (forward : r.pos < p.body.pos) (nonneg : 0 ≤ p.body.len)
    (ends : p.body.pos + p.body.len = next.pos) : p.body.Within area := by
  have start := within.pos_nonneg
  have inside := (within.continues continues).inside
  have left := continues.left_nonneg
  exact ⟨by omega, nonneg, by omega⟩

theorem Safe.reported_bind {α : Type} {e : Report}
    (within : r.Within area) {holds : α → Cursor → Prop}
    {next : Arithmetic → Packet × Cursor → Outcome Report (α × Cursor)}
    (later : ∀ p r', p.body.Within area → r'.Within area → r'.left < r.left →
      Safe (fun a => next a (p, r')) holds) :
    Safe (fun a => ((pktRead a area r).reported e).bind (next a)) holds := by
  obtain ⟨same, ends, held⟩ := safe_pktRead within
  cases result : pktRead wrapping area r with
  | fault | unending =>
    rw [result] at ends
    exact ends.elim
  | refused =>
    refine ⟨?_, ?_, ?_⟩
    · simp only [← same, result, Outcome.reported, Outcome.bind]
    · simp only [result, Outcome.reported, Outcome.bind]
      trivial
    · intro v last isOk
      simp only [result, Outcome.reported, Outcome.bind] at isOk
      cases isOk
  | ok found =>
    obtain ⟨p, r'⟩ := found
    obtain ⟨continues, forward, nonneg, lies⟩ := held p r' result
    have shorter : r'.left < r.left := by
      have sameEnd := continues.same_end
      omega
    obtain ⟨same', ends', held'⟩ := later p r'
      (Stretch.within_of_packet within continues forward nonneg lies)
      (within.continues continues) shorter
    refine ⟨?_, ?_, ?_⟩
    · simp only [← same, result, Outcome.reported, Outcome.bind]
      exact same'
    · simp only [result, Outcome.reported, Outcome.bind]
      exact ends'
    · intro v last isOk
      simp only [result, Outcome.reported, Outcome.bind] at isOk
      exact held' v last isOk

/-- Every turn of `key_parse` leaves fewer bytes, so that as many turns as there
are bytes are enough. -/
theorem safe_keyParse (sha1 : List UInt8 → Option (List UInt8)) (turns : Nat)
    (within : r.Within area) (enough : r.left < turns) :
    Safe (fun a => keyParse a area sha1 turns r)
      fun key _ => key.n.Within area ∧ key.e.Within area := by
  induction turns generalizing r with
  | zero =>
    have := within.left_nonneg
    omega
  | succ turns ih =>
    simp only [keyParse]
    refine Safe.reported_bind within fun p r' body within' shorter => ?_
    dsimp only
    split
    · exact ih within' (by omega)
    · obtain ⟨same, ends, held⟩ := safe_of_sound (sound_publicKey sha1 body)
      exact ⟨same, ends, fun key next result => (held key next result).2⟩

theorem safe_signatureRead (within : r.Within area) : Safe (fun a => signatureRead a area r)
      fun sig _ => sig.mpi.Within area := by
  refine Safe.reported_bind within fun p r' body _ _ => ?_
  dsimp only
  split
  · exact ⟨rfl, trivial, fun _ _ result => by cases result⟩
  · obtain ⟨same, ends, held⟩ := safe_of_sound (sound_signatureFields body)
    exact ⟨same, ends, fun sig next result => (held sig next result).2⟩

/-- A packet that `pkt_read` accepts lies in the buffer behind the position,
which moves to its end; the walks over a key and over a signature come to an
end inside of the buffer; and no length wraps around on the way. -/
theorem packets_read_safely (area : Area) : (∀ r : Cursor, r.Within area →
      Safe (fun a => pktRead a area r) fun p next =>
        next.Within area ∧ next.pos + next.left = r.pos + r.left ∧
          r.pos < p.body.pos ∧ 0 ≤ p.body.len ∧
          p.body.pos + p.body.len = next.pos) ∧
    (∀ (sha1 : List UInt8 → Option (List UInt8)) (turns : Nat), area.bytes.length < turns →
      Safe (fun a => keyParse a area sha1 turns ⟨0, area.bytes.length⟩)
        fun key _ => key.n.Within area ∧ key.e.Within area) ∧
    Safe (fun a => signatureRead a area ⟨0, area.bytes.length⟩)
      fun sig _ => sig.mpi.Within area := by
  have whole : Cursor.Within ⟨0, area.bytes.length⟩ area :=
    ⟨Int.le_refl _, Int.natCast_nonneg _, by simp⟩
  refine ⟨?_, ?_, safe_signatureRead whole⟩
  · intro r within
    obtain ⟨same, ends, held⟩ := safe_pktRead within
    refine ⟨same, ends, fun p next result => ?_⟩
    obtain ⟨continues, forward, nonneg, lies⟩ := held p next result
    exact ⟨within.continues continues, continues.same_end, forward, nonneg, lies⟩
  · intro sha1 turns enough
    exact safe_keyParse sha1 turns whole (by simpa using enough)

end Cix.Pgp
