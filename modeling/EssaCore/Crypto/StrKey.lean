import Mathlib

/-!
# Keys as strings

`crypto/StrKey.cpp`: a key is written in base 32 with its version before it and a checksum after
it. "Only keep 5 bits from the version": `fromStrKey` drops the three low bits of the first byte,
which `toStrKey` writes as zero, and does not ask for them to be zero. So eight strings stand for
each key, and only one of them is written.

- `toStrKey`, `fromStrKey` — the code, for any base 32 and any CRC;
- `fromStrKey_iff` — which strings are accepted;
- `strKey_bijective_iff` — those that are written again are the ones with three zeros.
-/

namespace EssaCore.Crypto

/-- `std::vector<uint8_t>`, and `std::string` -/
abbrev Bytes := List (BitVec 8)

/-- `util/Decoder.h` on the library's base 32, which is padded: the strings that are not encodings
are rejected. -/
structure Base32 where
  encode_b32 : Bytes → Bytes
  decode_b32 : Bytes → Option Bytes
  inverse : Function.IsPartialInv encode_b32 decode_b32
  aligned : ∀ v, (encode_b32 v).length % 8 = 0

section Code

variable (decoder : Base32) (crc16 : Bytes → BitVec 16)

/-- The checksum, the low byte first -/
def checksum (v : Bytes) : Bytes :=
  [(crc16 v).setWidth 8, (crc16 v >>> 8).setWidth 8]

def toStrKey (ver : BitVec 8) (bin : Bytes) : Bytes :=
  let toEncode := ver <<< 3 :: bin
  decoder.encode_b32 (toEncode ++ checksum crc16 toEncode)

/-- `back` and `pop_back` -/
def pop (v : Bytes) : Option (BitVec 8 × Bytes) := v.getLast?.map (·, v.dropLast)

/-- `outVersion` and `decoded`, if the string could be decoded -/
def fromStrKey (strKey : Bytes) : Option (BitVec 8 × Bytes) := do
  guard (strKey.length % 8 = 0)
  let decoded ← decoder.decode_b32 strKey
  guard (3 ≤ decoded.length)
  let (hi, decoded) ← pop decoded
  let (lo, decoded) ← pop decoded
  guard (crc16 decoded = hi.setWidth 16 <<< 8 ||| lo.setWidth 16)
  let outVersion ← decoded.head?
  pure (outVersion >>> 3, decoded.tail)

end Code

/-! ## What is accepted -/

variable {decoder : Base32} {crc16 : Bytes → BitVec 16} {strKey v bin : Bytes}
  {lo hi x ver : BitVec 8} {crc : BitVec 16}

theorem crc_eq_iff : crc = hi.setWidth 16 <<< 8 ||| lo.setWidth 16 ↔
    crc.setWidth 8 = lo ∧ (crc >>> 8).setWidth 8 = hi := by
  constructor
  · rintro rfl
    constructor
    · ext i hi
      simp
    · ext i hi
      simp
      grind
  · rintro ⟨rfl, rfl⟩
    ext i hi
    simp
    grind

theorem pop_eq_some : pop v = some (x, bin) ↔ v = bin ++ [x] := by
  rw [pop, Option.map_eq_some_iff]
  constructor
  · rintro ⟨y, hy, heq⟩
    cases heq
    exact (List.dropLast_append_getLast? _ hy).symm
  · rintro rfl
    exact ⟨x, by simp⟩

/-- The strings that are accepted for a key: any three bits may follow the version. -/
theorem fromStrKey_iff : fromStrKey decoder crc16 strKey = some (ver, bin) ↔
    ∃ x : BitVec 8, x >>> 3 = ver ∧
      decoder.encode_b32 (x :: bin ++ checksum crc16 (x :: bin)) = strKey := by
  simp only [fromStrKey, Option.bind_eq_bind, Option.bind_eq_some_iff, Option.guard_eq_some',
    Prod.exists, pop_eq_some, crc_eq_iff, Option.pure_def, Option.some.injEq, Prod.mk.injEq]
  constructor
  · rintro ⟨-, -, decoded, hdecode, -, -, hi, _, rfl, lo, body, rfl, -, ⟨rfl, rfl⟩, x, hx, rfl, rfl⟩
    obtain ⟨bin, rfl⟩ := List.head?_eq_some_iff.mp hx
    refine ⟨x, rfl, (decoder.inverse _ _).mp ?_⟩
    simpa [checksum] using hdecode
  · rintro ⟨x, rfl, rfl⟩
    refine ⟨(), decoder.aligned _, _, (decoder.inverse _ _).mpr rfl, (), by simp [checksum], ?_⟩
    exact ⟨_, _, (List.append_assoc (x :: bin) [_] [_]).symm, _, _, rfl, (), ⟨rfl, rfl⟩, x, rfl,
      rfl, rfl⟩

theorem shiftLeft_ushiftRight (h : ver < 32) : ver <<< 3 >>> 3 = ver := by
  revert ver
  decide

theorem ushiftRight_shiftLeft : x >>> 3 <<< 3 = x ↔ x &&& 7 = 0 := by
  revert x
  decide

/-- A key that is written is read again; and a string that is read is the one that is written for
its key if and only if the three bits after its version are zero. -/
theorem strKey_bijective_iff (decoder : Base32) (crc16 : Bytes → BitVec 16) :
    (∀ ver < 32, ∀ bin,
      fromStrKey decoder crc16 (toStrKey decoder crc16 ver bin) = some (ver, bin)) ∧
    ∀ strKey ver bin, fromStrKey decoder crc16 strKey = some (ver, bin) →
      (toStrKey decoder crc16 ver bin = strKey ↔
        ∀ x ∈ (decoder.decode_b32 strKey).bind List.head?, x &&& 7 = 0) := by
  constructor
  · intro ver hver bin
    exact fromStrKey_iff.mpr ⟨ver <<< 3, shiftLeft_ushiftRight hver, rfl⟩
  · intro strKey ver bin h
    obtain ⟨x, rfl, hx⟩ := fromStrKey_iff.mp h
    have hhead : (decoder.decode_b32 strKey).bind List.head? = some x := by
      rw [(decoder.inverse _ _).mpr hx]
      rfl
    rw [hhead, ← hx]
    simp only [Option.mem_some, forall_eq', ← ushiftRight_shiftLeft]
    constructor
    · intro heq
      exact (List.cons.inj (decoder.inverse.injective heq)).1
    · intro heq
      rw [toStrKey, heq]

/-- Eight characters for each byte -/
def pad : Bytes → Bytes
  | [] => []
  | x :: v => x :: 0 :: 0 :: 0 :: 0 :: 0 :: 0 :: 0 :: pad v

def unpad : Bytes → Bytes
  | x :: _ :: _ :: _ :: _ :: _ :: _ :: _ :: s => x :: unpad s
  | _ => []

theorem unpad_pad : ∀ v, unpad (pad v) = v
  | [] => rfl
  | x :: v => congrArg (x :: ·) (unpad_pad v)

def padded : Base32 where
  encode_b32 := pad
  decode_b32 s := if pad (unpad s) = s then some (unpad s) else none
  inverse v s := by
    dsimp only
    constructor
    · intro h
      split at h
      · rename_i hs
        rwa [← Option.some.inj h]
      · cases h
    · rintro rfl
      rw [unpad_pad, if_pos rfl]
  aligned v := by
    induction v with
    | nil => rfl
    | cons x v ih =>
      simp only [pad, List.length_cons]
      omega

theorem strKey_bijective_iff_padded : fromStrKey padded (fun _ => 0)
    (toStrKey padded (fun _ => 0) 6 [1, 2]) = some (6, [1, 2]) :=
  (strKey_bijective_iff padded fun _ => 0).1 6 (by decide) [1, 2]

/-- The empty key of version zero has a second string, for any base 32 and any CRC. -/
theorem strKey_two_strings :
    (fromStrKey padded (fun _ => 0) (pad [1, 0, 0]) = some (0, []) ∧
      toStrKey padded (fun _ => 0) 0 [] ≠ pad [1, 0, 0]) ∧
    ∀ (decoder : Base32) (crc16 : Bytes → BitVec 16), ∃ strKey,
      fromStrKey decoder crc16 strKey = some (0, []) ∧ toStrKey decoder crc16 0 [] ≠ strKey := by
  refine ⟨by decide, fun decoder crc16 => ?_⟩
  have hread : fromStrKey decoder crc16 (decoder.encode_b32 (1 :: checksum crc16 [1])) =
      some (0, []) := fromStrKey_iff.mpr ⟨1, rfl, rfl⟩
  refine ⟨_, hread, fun heq => ?_⟩
  exact absurd (List.cons.inj (decoder.inverse.injective heq)).1 (by decide)

end EssaCore.Crypto
