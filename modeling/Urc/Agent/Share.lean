import Urc.Library.Percent

/-! # The pairing link of the agent

`urc-agent share` writes a link with the address and the names of the machine. The values of its
query are encoded byte by byte.
-/

namespace Urc.Share

def unreserved (byte : UInt8) : Bool :=
  (65 ≤ byte && byte ≤ 90) || (97 ≤ byte && byte ≤ 122) || (48 ≤ byte && byte ≤ 57) || byte = 45 ||
    byte = 95 || byte = 46 || byte = 126

def encodeByte (byte : UInt8) : List Char :=
  if unreserved byte then [Char.ofNat byte.toNat] else Percent.encodeByte byte

def encode (value : String) : String :=
  .ofList ((Percent.utf8 value.toList).flatMap encodeByte)

def query (host magicdns : String) (port : UInt16) (name : String) : String :=
  "host=" ++ encode host ++ "&magicdns=" ++ encode magicdns ++ "&port=" ++ toString port.toNat ++
    "&name=" ++ encode name

def buildUri (host magicdns : String) (port : UInt16) (name : String) : String :=
  "urc://connect?" ++ query host magicdns port name

def keep (c : Char) : Bool := c.toNat < 128 && unreserved (.ofNat c.toNat)

theorem utf8EncodeChar_of_lt {c : Char} (h : c.toNat < 128) :
    String.utf8EncodeChar c = [.ofNat c.toNat] := by
  unfold String.utf8EncodeChar
  exact if_pos (Nat.le_of_lt_succ h)

theorem unreserved_of_le {c : Char} (h : 128 ≤ c.toNat) {byte : UInt8}
    (hb : byte ∈ String.utf8EncodeChar c) : unreserved byte = false := by
  have hhigh : 128 ≤ byte.toNat := by
    have hval : c.val.toNat = c.toNat := rfl
    unfold String.utf8EncodeChar at hb
    simp only [hval] at hb
    split_ifs at hb
    · omega
    all_goals
      simp only [List.mem_cons, List.not_mem_nil, or_false] at hb
      rcases hb with rfl | rfl | rfl | rfl <;> simp <;> omega
  have hall : ∀ k : Fin 256, 128 ≤ k.val → unreserved (.ofNat k.val) = false := by
    decide +kernel
  have hbyte := hall ⟨byte.toNat, byte.toNat_lt⟩ hhigh
  rwa [UInt8.ofNat_toNat] at hbyte

/-- Encoding goes character by character. -/
theorem toList_encode (value : String) :
    (encode value).toList = Percent.encode keep value.toList := by
  rw [encode, String.toList_ofList, Percent.utf8, Percent.encode, List.flatMap_assoc]
  refine List.flatMap_congr fun c _ => ?_
  by_cases hc : c.toNat < 128
  · have hbyte : (UInt8.ofNat c.toNat).toNat = c.toNat := by
      rw [UInt8.toNat_ofNat_of_lt' (by rw [UInt8.size]; omega)]
    have hsame : Char.ofNat (UInt8.ofNat c.toNat).toNat = c := by rw [hbyte, Char.ofNat_toNat]
    simp only [utf8EncodeChar_of_lt hc, List.flatMap_cons, List.flatMap_nil, List.append_nil,
      encodeByte, Percent.encodeChar, keep, hc, decide_true, Bool.true_and, hsame]
  · have hkeep : keep c = false := by simp [keep, hc]
    rw [Percent.encodeChar, hkeep]
    refine List.flatMap_congr fun byte hbyte => ?_
    rw [encodeByte, unreserved_of_le (Nat.le_of_not_lt hc) hbyte]
    rfl

end Urc.Share
