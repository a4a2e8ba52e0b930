import Maat.Lib.Checks
import Maat.Orchestrator.DestinationWallet

/-!
# Base58Check loses nothing

The encoder's two loops write the bytes in base 58: the digits of their number, and a `1` for each
zero byte in front. This is `Radix.transcode`, so standard base58 gives the bytes back
(`base58_round_trip`), and two TRON wallets are displayed alike only if they are the same 21
bytes.
-/

namespace Maat.Orchestrator.DestinationWallet

open Bytes Hex Js

variable {sha256 : List UInt8 → Fixed 32}

/-- Standard base58, where a `1` in front stands for a zero byte. -/
def base58Decode (text : Str) : Option (List UInt8) :=
  (text.mapM BASE58_ALPHABET.idxOf?).map fun ds => (Radix.transcode 58 256 ds).map UInt8.ofNat

/-! ## The two loops -/

def symbol (d : Nat) : Char := BASE58_ALPHABET.getD d ' '

theorem idxOf?_symbol : ∀ d < 58, BASE58_ALPHABET.idxOf? (symbol d) = some d := by decide

theorem base58Digits_eq (value : Nat) (result : Str) :
    base58Digits value result = (Radix.digits 58 value).map symbol ++ result := by
  induction value, result using base58Digits.induct with
  | case1 result =>
    rw [base58Digits, if_pos rfl]
    rfl
  | case2 value result hne ih =>
    rw [base58Digits, if_neg hne, ih, Radix.digits_of_pos (by decide) (Nat.pos_of_ne_zero hne),
      List.map_append, List.append_assoc]
    rfl

theorem base58Zeros_eq (bytes : List UInt8) (result : Str) :
    base58Zeros bytes result = (Radix.zeros (bytes.map UInt8.toNat)).map symbol ++ result := by
  have hones : ∀ (ds : List Nat) (r : Str),
      (Radix.zeros ds).map symbol ++ '1' :: r = '1' :: ((Radix.zeros ds).map symbol ++ r) := by
    intro ds r
    have hall : (Radix.zeros ds).map symbol = List.replicate (Radix.zeros ds).length '1' := by
      refine List.eq_replicate_iff.mpr ⟨List.length_map _, fun c hc => ?_⟩
      obtain ⟨d, hd, rfl⟩ := List.mem_map.mp hc
      rw [Radix.eq_zero_of_mem_zeros hd]
      rfl
    rw [hall, ← List.singleton_append, ← List.append_assoc, ← List.replicate_succ',
      List.replicate_succ, List.cons_append]
  induction bytes generalizing result with
  | nil => rfl
  | cons byte bytes ih =>
    rw [base58Zeros]
    split
    · next hzero =>
      rw [ih, hones, hzero]
      rfl
    · next hne =>
      have hnat : byte.toNat ≠ 0 := fun h => hne (UInt8.toNat_inj.mp h)
      rw [List.map_cons, Radix.zeros, List.takeWhile_cons_of_neg (by simpa using hnat)]
      rfl

/-- The encoder writes the bytes and their checksum in base 58. -/
theorem base58CheckEncode_eq (hex : Str) :
    base58CheckEncode sha256 hex =
      some ((Radix.transcode 256 58
        ((fromHex hex ++ checksum sha256 (fromHex hex)).map UInt8.toNat)).map symbol) := by
  have hne : fromHex hex ++ checksum sha256 (fromHex hex) ≠ [] := by
    have hlen : (checksum sha256 (fromHex hex)).length = 4 := by
      rw [checksum, List.length_take, (sha256 _).property]
      rfl
    exact List.append_ne_nil_of_right_ne_nil _ (List.ne_nil_of_length_pos (by omega))
  simp only [base58CheckEncode, bigInt_toHex hne, Option.bind_eq_bind, Option.bind_some,
    Option.pure_def]
  rw [base58Zeros_eq, base58Digits_eq, List.append_nil, Radix.transcode, ← List.map_append]

/-! ## The way back -/

theorem mapM_symbol {ds : List Nat} (h : ∀ d ∈ ds, d < 58) :
    (ds.map symbol).mapM BASE58_ALPHABET.idxOf? = some ds := by
  rw [List.mapM_map]
  have hread : ∀ d ∈ ds, BASE58_ALPHABET.idxOf? (symbol d) = some (id d) := fun d hd =>
    idxOf?_symbol d (h d hd)
  exact (Checks.mapM_eq_some hread).trans (congrArg some (List.map_id ds))

theorem base58Decode_transcode (bytes : List UInt8) :
    base58Decode ((Radix.transcode 256 58 (bytes.map UInt8.toNat)).map symbol) = some bytes := by
  have hbytes : ∀ d ∈ bytes.map UInt8.toNat, d < 256 := by
    intro d hd
    obtain ⟨b, -, rfl⟩ := List.mem_map.mp hd
    exact b.toNat_lt
  rw [base58Decode, mapM_symbol fun d hd => Radix.lt_of_mem_transcode (by decide) hd,
    Option.map_some, Radix.transcode_transcode (by decide) hbytes, List.map_map]
  simp only [Function.comp_def, UInt8.ofNat_toNat, List.map_id']

example : base58Decode "1JxF12TrwUP45BMd".toList =
    some (0 :: "Hello World".toList.map fun c => UInt8.ofNat c.toNat) := by decide

/-- What is encoded is read back, with the checksum behind it. -/
theorem decode_base58CheckEncode (hex : Str) :
    (base58CheckEncode sha256 hex).bind base58Decode =
      some (fromHex hex ++ checksum sha256 (fromHex hex)) := by
  rw [base58CheckEncode_eq, Option.bind_some, base58Decode_transcode]

/-- Two texts are encoded alike only if they are the same bytes. -/
theorem base58CheckEncode_inj {hex hex' : Str} :
    base58CheckEncode sha256 hex = base58CheckEncode sha256 hex' ↔ fromHex hex = fromHex hex' := by
  constructor
  · intro h
    have hback := congrArg (Option.bind · base58Decode) h
    simp only [decode_base58CheckEncode, Option.some.injEq] at hback
    refine (List.append_inj' hback ?_).1
    simp only [checksum, List.length_take, (sha256 _).property]
  · intro h
    rw [base58CheckEncode_eq, base58CheckEncode_eq, h]

theorem base58_round_trip (sha256 : List UInt8 → Fixed 32) :
    (∀ b, (base58CheckEncode sha256 (toHex b)).bind base58Decode =
      some (b ++ (sha256 (sha256 b).val).val.take 4)) ∧
    ∀ (toBase58 : List UInt8 → Option Str) (wallet wallet' : Str),
      decodeDestinationWallet sha256 toBase58 wallet TRON_NILE_CHAIN_ID =
        decodeDestinationWallet sha256 toBase58 wallet' TRON_NILE_CHAIN_ID ↔
      tronPayload wallet = tronPayload wallet' := by
  constructor
  · intro b
    rw [decode_base58CheckEncode, fromHex_toHex, checksum]
  · intro toBase58 wallet wallet'
    rw [decodeDestinationWallet, decodeDestinationWallet, if_neg (by decide), if_pos rfl,
      if_neg (by decide), if_pos rfl, base58CheckEncode_inj, fromHex_toHex, fromHex_toHex]

/-- An address of `41` and 20 bytes is displayed in base58, and nothing of it is lost. -/
theorem decode_hexToTronAddress {hex : Str} (hlen : hex.length = 42)
    (htronHex : "41".toList <+: hex) :
    base58Decode (hexToTronAddress sha256 hex) =
      some (fromHex hex ++ checksum sha256 (fromHex hex)) := by
  have hnot : ¬ "0x".toList <+: hex := by
    obtain ⟨rest, rfl⟩ := htronHex
    rintro ⟨rest', h⟩
    cases h
  have hshape : ¬ (hex.length ≠ 42 ∨ ¬ "41".toList <+: hex) := by
    rintro (h | h)
    · exact h hlen
    · exact h htronHex
  simp only [hexToTronAddress, if_neg hnot, if_neg hshape]
  rw [base58CheckEncode_eq, Option.getD_some, base58Decode_transcode]

end Maat.Orchestrator.DestinationWallet
