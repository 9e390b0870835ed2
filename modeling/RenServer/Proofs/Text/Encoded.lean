/- # The bytes of a text

Bytes are UTF-8 if they are the bytes of some text. Decoding finds that text if there is one,
and fails otherwise (`decodeStrict_eq_ok_iff`, `exists_decodeStrict_error_iff`).

Both directions rest on one relation: bytes that complete a scalar value of which the lead
byte, and maybe more, has been read (`Completes`). The bytes of a character are a lead byte
and bytes that complete it (`exists_completes`), so a text is decoded from its bytes. And
what completes a lead byte gives the bytes of the character back (`encodeChar_of_completes`),
so the bytes of all pieces are the bytes that were cut (`flatMap_bytes_piecesFrom`), and a
byte list without broken pieces is the bytes of its characters.

Key definitions: `Completes`, `Piece.bytes`, `Pending.Sound`.
Key theorems: `exists_completes`, `encodeChar_of_completes`, `flatMap_bytes_piecesFrom`,
`decodeStrict_eq_ok_iff`, `exists_decodeStrict_error_iff`.
-/
import Mathlib.Tactic.SplitIfs
import RenServer.Text.Utf8

namespace RenServer
namespace Text
namespace Utf8

open String (utf8EncodeChar)

/-! ### The bytes of one character -/

theorem toNat_ofNat_of_valid {n : Nat} (h : n.isValidChar) : (Char.ofNat n).toNat = n := by
  rw [Char.ofNat, dif_pos h]
  rfl

/-- No character is a surrogate or above the last scalar value. -/
theorem toNat_bounds (c : Char) :
    c.toNat < 0xd800 ∨ 0xdfff < c.toNat ∧ c.toNat < 0x110000 := c.valid

theorem exists_byte {n : Nat} (h : n < 256) : ∃ b : UInt8, b.toNat = n :=
  ⟨.ofNat n, UInt8.toNat_ofNat_of_lt' h⟩

section Sizes

variable {c : Char} {b b1 b2 b3 : UInt8}

theorem encodeChar_one (h : c.toNat < 0x80) (hb : b.toNat = c.toNat) : utf8EncodeChar c = [b] := by
  simp only [utf8EncodeChar, Char.toNat_val]
  rw [if_pos (by omega), ← hb, UInt8.ofNat_toNat]

theorem encodeChar_two (h : 0x80 ≤ c.toNat) (h' : c.toNat < 0x800)
    (hb : b.toNat = c.toNat / 64 + 0xc0) (hb1 : b1.toNat = c.toNat % 64 + 0x80) :
    utf8EncodeChar c = [b, b1] := by
  have hlead : c.toNat / 64 % 32 = c.toNat / 64 := by omega
  simp only [utf8EncodeChar, Char.toNat_val]
  rw [if_neg (by omega), if_pos (by omega), hlead, ← hb, ← hb1, UInt8.ofNat_toNat,
    UInt8.ofNat_toNat]

theorem encodeChar_three (h : 0x800 ≤ c.toNat) (h' : c.toNat < 0x10000)
    (hb : b.toNat = c.toNat / 4096 + 0xe0) (hb1 : b1.toNat = c.toNat / 64 % 64 + 0x80)
    (hb2 : b2.toNat = c.toNat % 64 + 0x80) : utf8EncodeChar c = [b, b1, b2] := by
  have hlead : c.toNat / 4096 % 16 = c.toNat / 4096 := by omega
  simp only [utf8EncodeChar, Char.toNat_val]
  rw [if_neg (by omega), if_neg (by omega), if_pos (by omega), hlead, ← hb, ← hb1, ← hb2,
    UInt8.ofNat_toNat, UInt8.ofNat_toNat, UInt8.ofNat_toNat]

theorem encodeChar_four (h : 0x10000 ≤ c.toNat) (hb : b.toNat = c.toNat / 262144 + 0xf0)
    (hb1 : b1.toNat = c.toNat / 4096 % 64 + 0x80) (hb2 : b2.toNat = c.toNat / 64 % 64 + 0x80)
    (hb3 : b3.toNat = c.toNat % 64 + 0x80) : utf8EncodeChar c = [b, b1, b2, b3] := by
  have hlead : c.toNat / 262144 % 8 = c.toNat / 262144 := by
    have := toNat_bounds c
    omega
  simp only [utf8EncodeChar, Char.toNat_val]
  rw [if_neg (by omega), if_neg (by omega), if_neg (by omega), hlead, ← hb, ← hb1, ← hb2, ← hb3,
    UInt8.ofNat_toNat, UInt8.ofNat_toNat, UInt8.ofNat_toNat, UInt8.ofNat_toNat]

end Sizes

/-! ### Bytes that complete a scalar value -/

/-- Bytes complete the scalar value that is under way. -/
inductive Completes : Pending → List UInt8 → Char → Prop where
  | last {p : Pending} {b : UInt8} {c : Char} (hmore : p.more = 0) (hb : p.accepts b = true)
      (hc : c = Char.ofNat (p.shifted b)) : Completes p [b] c
  | next {p : Pending} {b : UInt8} {bs : List UInt8} {c : Char} (hmore : p.more ≠ 0)
      (hb : p.accepts b = true) (h : Completes (p.next b) bs c) : Completes p (b :: bs) c

theorem Completes.piecesFrom_append {p : Pending} {bs : List UInt8} {c : Char}
    (h : Completes p bs c) (rest : List UInt8) :
    piecesFrom (some p) (bs ++ rest) = .scalar c :: piecesFrom none rest := by
  induction h with
  | last hmore hb hc =>
    rw [List.singleton_append, piecesFrom, if_pos hb, if_pos hmore, hc]
  | next hmore hb h ih =>
    rw [List.cons_append, piecesFrom, if_pos hb, if_neg hmore, ih]

section Leads

variable {b : UInt8}

theorem lead_two (h : 0xc2 ≤ b.toNat) (h' : b.toNat < 0xe0) :
    lead b = .opens { seen := [b], value := b.toNat - 0xc0, more := 0 } := by
  dsimp only [lead]
  rw [if_neg (by omega), if_neg (by omega), if_pos h']

theorem lead_three (h : 0xe0 ≤ b.toNat) (h' : b.toNat < 0xf0) :
    lead b = .opens { seen := [b], value := b.toNat - 0xe0, more := 1,
                      low := if b.toNat = 0xe0 then 0xa0 else 0x80,
                      high := if b.toNat = 0xed then 0x9f else 0xbf } := by
  dsimp only [lead]
  rw [if_neg (by omega), if_neg (by omega), if_neg (by omega), if_pos h']

theorem lead_four (h : 0xf0 ≤ b.toNat) (h' : b.toNat < 0xf5) :
    lead b = .opens { seen := [b], value := b.toNat - 0xf0, more := 2,
                      low := if b.toNat = 0xf0 then 0x90 else 0x80,
                      high := if b.toNat = 0xf4 then 0x8f else 0xbf } := by
  dsimp only [lead]
  rw [if_neg (by omega), if_neg (by omega), if_neg (by omega), if_neg (by omega), if_pos h']

theorem bounds_of_opens {p : Pending} (h : lead b = .opens p) :
    0xc2 ≤ b.toNat ∧ b.toNat < 0xf5 := by
  dsimp only [lead] at h
  split_ifs at h <;> omega

theorem accepts_iff {p : Pending} : p.accepts b = true ↔ p.low ≤ b.toNat ∧ b.toNat ≤ p.high := by
  simp [Pending.accepts]

end Leads

/-! ### From a character to its bytes -/

section Encoding

variable {c : Char} {b b1 b2 b3 : UInt8}

theorem completes_two (h : 0x80 ≤ c.toNat) (h' : c.toNat < 0x800)
    (hb : b.toNat = c.toNat / 64 + 0xc0) (hb1 : b1.toNat = c.toNat % 64 + 0x80) :
    ∃ p, lead b = .opens p ∧ Completes p [b1] c := by
  refine ⟨_, lead_two (by omega) (by omega), .last rfl ?_ ?_⟩
  · rw [accepts_iff]
    dsimp only
    omega
  · have hvalue : (b.toNat - 0xc0) * 64 + (b1.toNat - 0x80) = c.toNat := by omega
    show c = Char.ofNat ((b.toNat - 0xc0) * 64 + (b1.toNat - 0x80))
    rw [hvalue, Char.ofNat_toNat]

theorem completes_three (h : 0x800 ≤ c.toNat) (h' : c.toNat < 0x10000)
    (hb : b.toNat = c.toNat / 4096 + 0xe0) (hb1 : b1.toNat = c.toNat / 64 % 64 + 0x80)
    (hb2 : b2.toNat = c.toNat % 64 + 0x80) : ∃ p, lead b = .opens p ∧ Completes p [b1, b2] c := by
  have hbounds := toNat_bounds c
  refine ⟨_, lead_three (by omega) (by omega), .next (by simp) ?_ (.last rfl ?_ ?_)⟩
  · rw [accepts_iff]
    dsimp only
    split_ifs <;> omega
  · rw [accepts_iff]
    dsimp only [Pending.next]
    omega
  · have hvalue : ((b.toNat - 0xe0) * 64 + (b1.toNat - 0x80)) * 64 + (b2.toNat - 0x80) = c.toNat := by
      omega
    show c = Char.ofNat (((b.toNat - 0xe0) * 64 + (b1.toNat - 0x80)) * 64 + (b2.toNat - 0x80))
    rw [hvalue, Char.ofNat_toNat]

theorem completes_four (h : 0x10000 ≤ c.toNat) (hb : b.toNat = c.toNat / 262144 + 0xf0)
    (hb1 : b1.toNat = c.toNat / 4096 % 64 + 0x80) (hb2 : b2.toNat = c.toNat / 64 % 64 + 0x80)
    (hb3 : b3.toNat = c.toNat % 64 + 0x80) :
    ∃ p, lead b = .opens p ∧ Completes p [b1, b2, b3] c := by
  have hbounds := toNat_bounds c
  refine ⟨_, lead_four (by omega) (by omega),
    .next (by simp) ?_ (.next (by simp [Pending.next]) ?_ (.last rfl ?_ ?_))⟩
  · rw [accepts_iff]
    dsimp only
    split_ifs <;> omega
  · rw [accepts_iff]
    dsimp only [Pending.next]
    omega
  · rw [accepts_iff]
    dsimp only [Pending.next]
    omega
  · have hvalue : (((b.toNat - 0xf0) * 64 + (b1.toNat - 0x80)) * 64 + (b2.toNat - 0x80)) * 64 +
        (b3.toNat - 0x80) = c.toNat := by
      omega
    show c = Char.ofNat ((((b.toNat - 0xf0) * 64 + (b1.toNat - 0x80)) * 64 + (b2.toNat - 0x80)) * 64 +
      (b3.toNat - 0x80))
    rw [hvalue, Char.ofNat_toNat]

/-- **The bytes of a character are a lead byte and bytes that complete it.** -/
theorem exists_completes (h : 0x80 ≤ c.toNat) :
    ∃ b bs p, utf8EncodeChar c = b :: bs ∧ lead b = .opens p ∧ Completes p bs c := by
  have hbounds := toNat_bounds c
  obtain ⟨x, hx⟩ := exists_byte (n := c.toNat % 64 + 0x80) (by omega)
  by_cases h2 : c.toNat < 0x800
  · obtain ⟨b, hb⟩ := exists_byte (n := c.toNat / 64 + 0xc0) (by omega)
    obtain ⟨p, hlead, hc⟩ := completes_two h h2 hb hx
    exact ⟨b, [x], p, encodeChar_two h h2 hb hx, hlead, hc⟩
  · obtain ⟨y, hy⟩ := exists_byte (n := c.toNat / 64 % 64 + 0x80) (by omega)
    by_cases h3 : c.toNat < 0x10000
    · obtain ⟨b, hb⟩ := exists_byte (n := c.toNat / 4096 + 0xe0) (by omega)
      obtain ⟨p, hlead, hc⟩ := completes_three (by omega) h3 hb hy hx
      exact ⟨b, [y, x], p, encodeChar_three (by omega) h3 hb hy hx, hlead, hc⟩
    · obtain ⟨b, hb⟩ := exists_byte (n := c.toNat / 262144 + 0xf0) (by omega)
      obtain ⟨z, hz⟩ := exists_byte (n := c.toNat / 4096 % 64 + 0x80) (by omega)
      obtain ⟨p, hlead, hc⟩ := completes_four (by omega) hb hz hy hx
      exact ⟨b, [z, y, x], p, encodeChar_four (by omega) hb hz hy hx, hlead, hc⟩

end Encoding

/-! ### From bytes to a character -/

section Decoding

variable {c : Char} {b : UInt8} {bs : List UInt8} {p : Pending}

theorem encodeChar_of_ascii (hlead : lead b = .ascii c) : utf8EncodeChar c = [b] := by
  dsimp only [lead] at hlead
  split_ifs at hlead with hb
  cases hlead
  have hvalue := toNat_ofNat_of_valid (n := b.toNat) (.inl (by omega))
  exact encodeChar_one (by omega) hvalue.symm

theorem encodeChar_of_two (h : 0xc2 ≤ b.toNat) (h' : b.toNat < 0xe0)
    (hlead : lead b = .opens p) (hc : Completes p bs c) : utf8EncodeChar c = b :: bs := by
  rw [lead_two h h', Lead.opens.injEq] at hlead
  subst hlead
  cases hc with
  | next hmore => exact absurd rfl hmore
  | @last _ b1 _ _ hb1 hc =>
    rw [accepts_iff] at hb1
    dsimp only at hb1
    have hvalid : ((b.toNat - 0xc0) * 64 + (b1.toNat - 0x80)).isValidChar := .inl (by omega)
    have hvalue : c.toNat = (b.toNat - 0xc0) * 64 + (b1.toNat - 0x80) := by
      rw [hc]
      exact toNat_ofNat_of_valid hvalid
    exact encodeChar_two (by omega) (by omega) (by omega) (by omega)

theorem encodeChar_of_three (h : 0xe0 ≤ b.toNat) (h' : b.toNat < 0xf0)
    (hlead : lead b = .opens p) (hc : Completes p bs c) : utf8EncodeChar c = b :: bs := by
  rw [lead_three h h', Lead.opens.injEq] at hlead
  subst hlead
  cases hc with
  | last hmore => exact absurd hmore (by simp)
  | @next _ b1 bs _ _ hb1 hc =>
    cases hc with
    | next hmore => exact absurd rfl hmore
    | @last _ b2 _ _ hb2 hc =>
      rw [accepts_iff] at hb1 hb2
      dsimp only [Pending.next] at hb1 hb2
      -- the bounds of the second byte leave out overlong forms and surrogates
      have hrange : 0x800 ≤ (b.toNat - 0xe0) * 4096 + (b1.toNat - 0x80) * 64 ∧
          ((b.toNat - 0xe0) * 4096 + (b1.toNat - 0x80) * 64 < 0xd800 ∨
            0xdfff < (b.toNat - 0xe0) * 4096 + (b1.toNat - 0x80) * 64) ∧
          0x80 ≤ b1.toNat ∧ b1.toNat < 0xc0 := by
        split_ifs at hb1 <;> omega
      have hvalid : (((b.toNat - 0xe0) * 64 + (b1.toNat - 0x80)) * 64 +
          (b2.toNat - 0x80)).isValidChar := by
        show _ < 0xd800 ∨ 0xdfff < _ ∧ _ < 0x110000
        omega
      have hvalue : c.toNat =
          ((b.toNat - 0xe0) * 64 + (b1.toNat - 0x80)) * 64 + (b2.toNat - 0x80) := by
        rw [hc]
        exact toNat_ofNat_of_valid hvalid
      exact encodeChar_three (by omega) (by omega) (by omega) (by omega) (by omega)

theorem encodeChar_of_four (h : 0xf0 ≤ b.toNat) (h' : b.toNat < 0xf5)
    (hlead : lead b = .opens p) (hc : Completes p bs c) : utf8EncodeChar c = b :: bs := by
  rw [lead_four h h', Lead.opens.injEq] at hlead
  subst hlead
  cases hc with
  | last hmore => exact absurd hmore (by simp)
  | @next _ b1 bs _ _ hb1 hc =>
    cases hc with
    | last hmore => exact absurd hmore (by simp [Pending.next])
    | @next _ b2 bs _ _ hb2 hc =>
      cases hc with
      | next hmore => exact absurd rfl hmore
      | @last _ b3 _ _ hb3 hc =>
        rw [accepts_iff] at hb1 hb2 hb3
        dsimp only [Pending.next] at hb1 hb2 hb3
        have hrange : 0x10000 ≤ (b.toNat - 0xf0) * 262144 + (b1.toNat - 0x80) * 4096 ∧
            (b.toNat - 0xf0) * 262144 + (b1.toNat - 0x80) * 4096 < 0x110000 ∧
            0x80 ≤ b1.toNat ∧ b1.toNat < 0xc0 := by
          split_ifs at hb1 <;> omega
        have hvalid : ((((b.toNat - 0xf0) * 64 + (b1.toNat - 0x80)) * 64 + (b2.toNat - 0x80)) * 64 +
            (b3.toNat - 0x80)).isValidChar := by
          show _ < 0xd800 ∨ 0xdfff < _ ∧ _ < 0x110000
          omega
        have hvalue : c.toNat = (((b.toNat - 0xf0) * 64 + (b1.toNat - 0x80)) * 64 +
            (b2.toNat - 0x80)) * 64 + (b3.toNat - 0x80) := by
          rw [hc]
          exact toNat_ofNat_of_valid hvalid
        exact encodeChar_four (by omega) (by omega) (by omega) (by omega) (by omega)

/-- **Bytes that complete a lead byte are the bytes of the character.** -/
theorem encodeChar_of_completes (hlead : lead b = .opens p) (hc : Completes p bs c) :
    utf8EncodeChar c = b :: bs := by
  obtain ⟨hlow, hhigh⟩ := bounds_of_opens hlead
  by_cases h2 : b.toNat < 0xe0
  · exact encodeChar_of_two hlow h2 hlead hc
  · by_cases h3 : b.toNat < 0xf0
    · exact encodeChar_of_three (by omega) h3 hlead hc
    · exact encodeChar_of_four (by omega) hhigh hlead hc

end Decoding

/-! ### The pieces of a byte list -/

/-- The bytes of a piece. -/
def Piece.bytes : Piece → List UInt8
  | .scalar c => utf8EncodeChar c
  | .broken bytes _ => bytes

/-- Whatever completes what is under way, the bytes that were seen are part of it. -/
def Pending.Sound (p : Pending) : Prop :=
  ∀ bs c, Completes p bs c → utf8EncodeChar c = p.seen ++ bs

theorem sound_of_opens {b : UInt8} {p : Pending} (h : lead b = .opens p) :
    p.Sound ∧ p.seen = [b] := by
  have hseen : p.seen = [b] := by
    dsimp only [lead] at h
    split_ifs at h <;> cases h <;> rfl
  refine ⟨fun bs c hc => ?_, hseen⟩
  rw [hseen, encodeChar_of_completes h hc]
  rfl

theorem Pending.Sound.next {p : Pending} (h : p.Sound) {b : UInt8} (hmore : p.more ≠ 0)
    (hb : p.accepts b = true) : (p.next b).Sound := by
  intro bs c hc
  rw [h (b :: bs) c (.next hmore hb hc), Pending.next, List.append_assoc, List.singleton_append]

/-- A byte that does not continue a scalar value opens a new piece. -/
theorem piecesFrom_of_not_accepts {p : Pending} {b : UInt8} (hb : p.accepts b = false)
    (rest : List UInt8) :
    piecesFrom (some p) (b :: rest) =
      .broken p.seen .invalidContinuation :: piecesFrom none (b :: rest) := by
  show (if p.accepts b = true then _ else _) = _
  rw [if_neg (by simp [hb]), piecesFrom]

/-- **Nothing is lost**: the bytes of the pieces are those that were seen and those that were
cut. -/
theorem flatMap_bytes_piecesFrom (bytes : List UInt8) :
    (piecesFrom none bytes).flatMap Piece.bytes = bytes ∧
      ∀ p : Pending, p.Sound →
        (piecesFrom (some p) bytes).flatMap Piece.bytes = p.seen ++ bytes := by
  induction bytes with
  | nil => exact ⟨rfl, fun p _ => rfl⟩
  | cons b rest ih =>
    obtain ⟨hnone, hsome⟩ := ih
    -- first with nothing under way: a byte that breaks a piece off is read again like that
    have hfresh : (piecesFrom none (b :: rest)).flatMap Piece.bytes = b :: rest := by
      rw [piecesFrom]
      cases hlead : lead b with
      | ascii c =>
        simp only [List.flatMap_cons, Piece.bytes, encodeChar_of_ascii hlead, hnone,
          List.singleton_append]
      | opens p =>
        obtain ⟨hsound, hseen⟩ := sound_of_opens hlead
        simp only [hsome p hsound, hseen, List.singleton_append]
      | invalid => simp only [List.flatMap_cons, Piece.bytes, hnone, List.singleton_append]
    refine ⟨hfresh, fun p hp => ?_⟩
    cases hb : p.accepts b with
    | false =>
      rw [piecesFrom_of_not_accepts hb, List.flatMap_cons, hfresh]
      rfl
    | true =>
      rw [piecesFrom, if_pos hb]
      by_cases hmore : p.more = 0
      · have hc := hp [b] _ (.last hmore hb rfl)
        rw [if_pos hmore, List.flatMap_cons, hnone, Piece.bytes, hc, List.append_assoc,
          List.singleton_append]
      · rw [if_neg hmore, hsome _ (hp.next hmore hb), Pending.next, List.append_assoc,
          List.singleton_append]

theorem piecesFrom_encodeChar_append (c : Char) (rest : List UInt8) :
    piecesFrom none (utf8EncodeChar c ++ rest) = .scalar c :: piecesFrom none rest := by
  by_cases h : c.toNat < 0x80
  · obtain ⟨b, hb⟩ := exists_byte (n := c.toNat) (by omega)
    have hlead : lead b = .ascii c := by
      dsimp only [lead]
      rw [if_pos (by omega), hb, Char.ofNat_toNat]
    rw [encodeChar_one h hb, List.singleton_append, piecesFrom, hlead]
  · obtain ⟨b, bs, p, hc, hlead, hcompletes⟩ := exists_completes (Nat.le_of_not_lt h)
    rw [hc, List.cons_append, piecesFrom, hlead]
    exact hcompletes.piecesFrom_append rest

theorem pieces_flatMap (cs : List Char) : pieces (cs.flatMap utf8EncodeChar) = cs.map .scalar := by
  induction cs with
  | nil => rfl
  | cons c cs ih =>
    rw [List.flatMap_cons, pieces, piecesFrom_encodeChar_append, List.map_cons, ← ih]
    rfl

/-! ### Whole texts -/

/-- Pieces are a text exactly if none of them is broken. -/
theorem scalars_eq_ok_iff {offset : Nat} {ps : List Piece} {cs : List Char} :
    scalars offset ps = .ok cs ↔ ps = cs.map .scalar := by
  induction ps generalizing offset cs with
  | nil =>
    cases cs with
    | nil => simp [scalars]
    | cons c cs => simp [scalars]
  | cons piece ps ih =>
    cases piece with
    | broken bytes fault =>
      cases cs with
      | nil => simp [scalars]
      | cons c cs => simp [scalars]
    | scalar d =>
      rw [scalars]
      cases cs with
      | nil =>
        cases scalars (offset + d.utf8Size) ps with
        | error place => simp [Except.map]
        | ok ds => simp [Except.map]
      | cons c cs =>
        have hrest : scalars (offset + d.utf8Size) ps = .ok cs ↔ ps = cs.map .scalar := ih
        rw [List.map_cons, List.cons.injEq, ← hrest]
        cases scalars (offset + d.utf8Size) ps with
        | error place => simp [Except.map]
        | ok ds => simp [Except.map]

/-- Bytes are read as a text exactly if they are the text's own. -/
theorem decodeStrict_eq_ok_iff {bytes : List UInt8} {cs : List Char} :
    decodeStrict bytes = .ok cs ↔ bytes = cs.flatMap utf8EncodeChar := by
  rw [decodeStrict, scalars_eq_ok_iff]
  refine ⟨fun h => ?_, fun h => by rw [h, pieces_flatMap]⟩
  have hbytes := (flatMap_bytes_piecesFrom bytes).1
  rw [← pieces, h, List.flatMap_map] at hbytes
  exact hbytes.symm

theorem toList_loop_eq (bytes : ByteArray) (i : Nat) (r : List UInt8) :
    ByteArray.toList.loop bytes i r = r.reverse ++ bytes.data.toList.drop i := by
  fun_induction ByteArray.toList.loop bytes i r with
  | case1 i r hi ih =>
    have hdata : i < bytes.data.toList.length := by simpa using hi
    rw [ih, List.drop_eq_getElem_cons hdata]
    simp [ByteArray.get!, hi]
  | case2 i r hi =>
    rw [List.drop_eq_nil_of_le (by simpa using Nat.le_of_not_lt hi), List.append_nil]

theorem encode_eq (s : String) : encode s = s.toList.flatMap utf8EncodeChar := by
  have hs : s.toByteArray = s.toList.utf8Encode := by simp
  rw [encode, String.toUTF8_eq_toByteArray, hs, ByteArray.toList, toList_loop_eq]
  simp [List.utf8Encode]

/-- **Bytes are refused exactly if they are the bytes of no text.** -/
theorem exists_decodeStrict_error_iff {bytes : List UInt8} :
    (∃ place, decodeStrict bytes = .error place) ↔ ∀ s : String, bytes ≠ encode s := by
  constructor
  · rintro ⟨place, herror⟩ s hs
    have hok : decodeStrict bytes = .ok s.toList := decodeStrict_eq_ok_iff.2 (by rw [hs, encode_eq])
    rw [herror] at hok
    cases hok
  · intro h
    cases hcs : decodeStrict bytes with
    | error place => exact ⟨place, rfl⟩
    | ok cs =>
      refine absurd ?_ (h (String.ofList cs))
      rw [encode_eq, String.toList_ofList]
      exact decodeStrict_eq_ok_iff.1 hcs

end Utf8
end Text
end RenServer
