import StepLang.Text.Utf8

/-! # Decoding what was encoded

The bytes of a text decode to the text.
-/

namespace StepLang.Text

theorem toList_loop (bytes : ByteArray) (i : Nat) (acc : List UInt8) :
    ByteArray.toList.loop bytes i acc = acc.reverse ++ bytes.data.toList.drop i := by
  fun_induction ByteArray.toList.loop bytes i acc with
  | case1 i acc h ih =>
    have hlen : i < bytes.data.toList.length := by simpa using h
    have hget : bytes.get! i = bytes.data[i]! := by cases bytes; rfl
    rw [ih, List.drop_eq_getElem_cons hlen, hget, getElem!_pos bytes.data i h]
    simp
  | case2 i acc h =>
    rw [List.drop_eq_nil_of_le (by simpa using Nat.le_of_not_lt h)]
    simp

theorem toList_toUTF8 (s : String) :
    s.toUTF8.toList = s.toList.flatMap String.utf8EncodeChar := by
  have hbytes : s.toUTF8 = s.toList.utf8Encode := by
    rw [String.toUTF8_eq_toByteArray]
    exact (String.utf8Encode_toList).symm
  rw [ByteArray.toList, toList_loop, hbytes]
  exact List.toList_data_toByteArray

theorem scalar?_toNat {least : Nat} {c : Char} (h : least ≤ c.toNat) :
    scalar? least c.toNat = some c := by
  rw [scalar?, if_pos ⟨h, c.valid⟩, Char.ofNat_toNat]

theorem bind_return (decoded : Except Nat (List Char)) (c : Char) :
    (do return c :: (← decoded)) = decoded.map (c :: ·) := by
  cases decoded <;> rfl

theorem toNat_ofNat_of_lt {n : Nat} (h : n < 256) : (UInt8.ofNat n).toNat = n := by
  rw [UInt8.toNat_ofNat']
  exact Nat.mod_eq_of_lt h

theorem trail_ofNat (n : Nat) :
    isTrail (UInt8.ofNat (n % 64 + 0x80)) = true ∧
      trailBits (UInt8.ofNat (n % 64 + 0x80)) = n % 64 := by
  have hn : n % 64 < 64 := Nat.mod_lt _ (by decide)
  rw [isTrail, trailBits, toNat_ofNat_of_lt (by omega), beq_iff_eq]
  omega

theorem decodeFrom_encodeChar (offset : Nat) (c : Char) (rest : List UInt8) :
    decodeFrom offset (String.utf8EncodeChar c ++ rest) =
      (decodeFrom (offset + (String.utf8EncodeChar c).length) rest).map (c :: ·) := by
  have hval : c.val.toNat = c.toNat := rfl
  have hlt : c.toNat < 0x110000 := by
    rcases c.valid with h | h <;> omega
  fun_cases String.utf8EncodeChar c with
  | case1 n h =>
    have hfirst : (UInt8.ofNat n).toNat = c.toNat := toNat_ofNat_of_lt (by omega)
    rw [List.cons_append, List.nil_append, decodeFrom.eq_def offset (_ :: _)]
    dsimp only
    rw [hfirst, if_pos (by omega), Char.ofNat_toNat, bind_return]
    rfl
  | case2 n h h' =>
    have hfirst : (UInt8.ofNat (n / 64 % 32 + 0xc0)).toNat = c.toNat / 64 + 0xc0 :=
      (toNat_ofNat_of_lt (by omega)).trans (by omega)
    obtain ⟨ht, hb⟩ := trail_ofNat n
    rw [List.cons_append, List.cons_append, List.nil_append, decodeFrom]
    dsimp only
    rw [hfirst, if_neg (by omega), if_pos (by omega), ht, hb,
      show (c.toNat / 64 + 0xc0) % 32 * 64 + n % 64 = c.toNat by omega, scalar?_toNat (by omega)]
    dsimp only
    rw [bind_return]
    rfl
  | case3 n h h' h'' =>
    have hfirst : (UInt8.ofNat (n / 4096 % 16 + 0xe0)).toNat = c.toNat / 4096 + 0xe0 :=
      (toNat_ofNat_of_lt (by omega)).trans (by omega)
    obtain ⟨ht, hb⟩ := trail_ofNat (n / 64)
    obtain ⟨ht', hb'⟩ := trail_ofNat n
    rw [List.cons_append, List.cons_append, List.cons_append, List.nil_append, decodeFrom]
    dsimp only
    rw [hfirst, if_neg (by omega), if_neg (by omega), if_pos (by omega), ht, hb, ht', hb',
      show ((c.toNat / 4096 + 0xe0) % 16 * 64 + n / 64 % 64) * 64 + n % 64 = c.toNat by omega,
      scalar?_toNat (by omega), Bool.and_self]
    dsimp only
    rw [bind_return]
    rfl
  | case4 n h h' h'' =>
    have hfirst : (UInt8.ofNat (n / 262144 % 8 + 0xf0)).toNat = c.toNat / 262144 + 0xf0 :=
      (toNat_ofNat_of_lt (by omega)).trans (by omega)
    obtain ⟨ht, hb⟩ := trail_ofNat (n / 4096)
    obtain ⟨ht', hb'⟩ := trail_ofNat (n / 64)
    obtain ⟨ht'', hb''⟩ := trail_ofNat n
    rw [List.cons_append, List.cons_append, List.cons_append, List.cons_append, List.nil_append,
      decodeFrom]
    dsimp only
    rw [hfirst, if_neg (by omega), if_neg (by omega), if_neg (by omega), if_pos (by omega), ht, hb,
      ht', hb', ht'', hb'',
      show (((c.toNat / 262144 + 0xf0) % 8 * 64 + n / 4096 % 64) * 64 + n / 64 % 64) * 64 + n % 64 =
        c.toNat by omega, scalar?_toNat (by omega), Bool.and_self, Bool.and_self]
    dsimp only
    rw [bind_return]
    rfl

theorem decodeFrom_flatMap (offset : Nat) (cs : List Char) :
    decodeFrom offset (cs.flatMap String.utf8EncodeChar) = .ok cs := by
  induction cs generalizing offset with
  | nil => rw [List.flatMap_nil, decodeFrom]
  | cons c cs ih =>
    rw [List.flatMap_cons, decodeFrom_encodeChar, ih]
    rfl

theorem decode_toUTF8 (s : String) : decode s.toUTF8.toList = .ok s := by
  rw [decode, toList_toUTF8, decodeFrom_flatMap]
  exact congrArg Except.ok (String.ofList_toList)

end StepLang.Text
