import XianAbci.Lib.Sha256

/-!
# Byte strings

Fixed-width numbers, length prefixes and the bytes of a text can be read back: what is needed to see
that an encoding is unambiguous.
-/

/-! ### Big-endian numbers -/

@[simp] theorem length_toBytesBig (n x : Nat) : (toBytesBig n x).length = n := by
  induction n with
  | zero => rfl
  | succ n ih => rw [toBytesBig, List.length_cons, ih]

theorem foldl_toBytesBig (n x a : Nat) :
    (toBytesBig n x).foldl (fun m b => 256 * m + b.toNat) a = a * 256 ^ n + x % 256 ^ n := by
  induction n generalizing a with
  | zero => simp [toBytesBig, Nat.mod_one]
  | succ n ih =>
    have hbyte : (UInt8.ofNat (x >>> (8 * n))).toNat = x / 256 ^ n % 256 := by
      rw [UInt8.toNat_ofNat', Nat.shiftRight_eq_div_pow, Nat.pow_mul]
    rw [toBytesBig, List.foldl_cons, ih, hbyte, Nat.mod_pow_succ, Nat.pow_succ]
    ring

theorem fromBytesBig_toBytesBig {n x : Nat} (h : x < 256 ^ n) : fromBytesBig (toBytesBig n x) = x := by
  rw [fromBytesBig, foldl_toBytesBig, Nat.mod_eq_of_lt h, Nat.zero_mul, Nat.zero_add]

theorem toBytesBig_injective {n x y : Nat} (hx : x < 256 ^ n) (hy : y < 256 ^ n)
    (h : toBytesBig n x = toBytesBig n y) : x = y := by
  rw [← fromBytesBig_toBytesBig hx, h, fromBytesBig_toBytesBig hy]

theorem fromBytesBig_eq_ofDigits (b : Bytes) : fromBytesBig b = Nat.ofDigits 256 (b.reverse.map UInt8.toNat) := by
  rw [Nat.ofDigits_eq_foldr, List.foldr_map, List.foldr_reverse, fromBytesBig]
  congr 1
  funext m x
  simp [Nat.add_comm]

/-- A number of known width has one byte string. -/
theorem fromBytesBig_injective {a b : Bytes} (hlen : a.length = b.length) (h : fromBytesBig a = fromBytesBig b) :
    a = b := by
  rw [fromBytesBig_eq_ofDigits, fromBytesBig_eq_ofDigits] at h
  have hbyte : ∀ l : Bytes, ∀ d ∈ l.reverse.map UInt8.toNat, d < 256 := by
    intro l d hd
    obtain ⟨x, -, rfl⟩ := List.mem_map.1 hd
    exact x.toNat_lt
  have hdigits := Nat.ofDigits_inj_of_len_eq (by decide) (by simpa using hlen) (hbyte a) (hbyte b) h
  have hmap := List.map_injective_iff.2 (fun x y hxy => UInt8.toNat_inj.1 hxy) hdigits
  exact List.reverse_injective hmap

/-! ### Length prefixes -/

/-- Two length-prefixed strings at the head of equal byte strings are equal. -/
theorem lengthPrefix_cancel {n : Nat} {a b s t : Bytes} (ha : a.length < 256 ^ n) (hb : b.length < 256 ^ n)
    (h : toBytesBig n a.length ++ a ++ s = toBytesBig n b.length ++ b ++ t) : a = b ∧ s = t := by
  rw [List.append_assoc, List.append_assoc] at h
  obtain ⟨hlen, hrest⟩ := List.append_inj h (by simp)
  exact List.append_inj hrest (toBytesBig_injective ha hb hlen)

/-! ### The bytes of a text -/

theorem ByteArray.toList_loop (bs : ByteArray) (n i : Nat) (r : Bytes) (hn : n = bs.size - i) :
    ByteArray.toList.loop bs i r = r.reverse ++ bs.data.toList.drop i := by
  induction n generalizing i r with
  | zero =>
    have hi : ¬ i < bs.size := by omega
    rw [ByteArray.toList.loop, if_neg hi, List.drop_eq_nil_of_le, List.append_nil]
    rw [Array.length_toList, ByteArray.size_data]
    omega
  | succ n ih =>
    have hi : i < bs.size := by omega
    rw [ByteArray.toList.loop, if_pos hi, ih (i + 1) _ (by omega), List.reverse_cons, List.append_assoc]
    congr 1
    have hlen : i < bs.data.toList.length := by rw [Array.length_toList, ByteArray.size_data]; exact hi
    rw [List.drop_eq_getElem_cons hlen, List.singleton_append]
    congr 1
    rw [Array.getElem_toList]
    exact getElem!_pos bs.data i hi

theorem ByteArray.toList_eq (bs : ByteArray) : bs.toList = bs.data.toList := by
  rw [ByteArray.toList, ByteArray.toList_loop bs _ 0 [] rfl]
  rfl

theorem String.toUTF8_toList_injective {s t : String} (h : s.toUTF8.toList = t.toUTF8.toList) : s = t := by
  rw [ByteArray.toList_eq, ByteArray.toList_eq] at h
  exact String.toByteArray_inj.1 (ByteArray.ext (Array.toList_inj.1 h))

/-! ### Digests -/

open Sha256 in
theorem length_sha256 (msg : Bytes) : (sha256 msg).length = 32 := by
  unfold sha256
  simp [Chain.digest]
