import Netx.Tcp.IpKey
import Mathlib.Data.List.Induction

/-!
# Which clients share a key

Two remote addresses have the same key exactly if they are the same IPv4 address, in
either of its forms, or IPv6 addresses with the same leading bits.
-/

set_option autoImplicit false

namespace Netx.Tcp

open Netip

section Bits

/-- Bit `i` of a sequence of bytes, from the first byte's most significant one on. -/
def bit (bytes : List (BitVec 8)) (i : Nat) : Bool :=
  (bytes.getD (i / 8) 0).getMsbD (i % 8)

private theorem ofBytes_concat (width : Nat) (bytes : List (BitVec 8)) (byte : BitVec 8) :
    ofBytes width (bytes ++ [byte]) = ofBytes width bytes <<< 8 ||| byte.setWidth width :=
  List.foldl_concat ..

variable {bytes : List (BitVec 8)} {width : Nat}

/-- The last byte is the least significant one. -/
theorem getLsbD_ofBytes (bytes : List (BitVec 8)) {j : Nat} (inside : j < width) :
    (ofBytes width bytes).getLsbD j = (bytes.reverse.getD (j / 8) 0).getLsbD (j % 8) := by
  induction bytes using List.reverseRecOn generalizing j with
  | nil => simp [ofBytes]
  | append_singleton bytes byte ih =>
      rw [ofBytes_concat, List.reverse_append]
      by_cases low : j < 8
      · have first : j / 8 = 0 := by omega
        have rest : j % 8 = j := by omega
        simp [low, inside, first, rest]
      · have next : j / 8 = (j - 8) / 8 + 1 := by omega
        have rest : j % 8 = (j - 8) % 8 := by omega
        have above : 8 ≤ j := by omega
        simp only [BitVec.getLsbD_or, BitVec.getLsbD_shiftLeft, inside, low, decide_true,
          decide_false, Bool.not_false, Bool.true_and, BitVec.getLsbD_setWidth,
          BitVec.getLsbD_of_ge byte j above, Bool.or_false, ih (show j - 8 < width by omega)]
        rw [next, rest]
        rfl

private theorem getMsbD_ofBytes {i : Nat} (inside : i < 8 * bytes.length) :
    (ofBytes (8 * bytes.length) bytes).getMsbD i = bit bytes i := by
  have place : bytes.length - 1 - (8 * bytes.length - 1 - i) / 8 = i / 8 := by omega
  have low : (8 * bytes.length - 1 - i) % 8 = 7 - i % 8 := by omega
  have within : (8 * bytes.length - 1 - i) / 8 < bytes.length := by omega
  have byte : bytes.reverse.getD ((8 * bytes.length - 1 - i) / 8) 0 = bytes.getD (i / 8) 0 := by
    simp only [List.getD_eq_getElem?_getD]
    rw [List.getElem?_reverse within, place]
  rw [BitVec.getMsbD_eq_getLsbD, getLsbD_ofBytes bytes (by omega), byte, low, bit,
    BitVec.getMsbD_eq_getLsbD]
  simp only [inside, decide_true, Bool.true_and, Nat.mod_lt i (show 8 > 0 by decide)]

/-- Bytes are determined by the number they make up. -/
theorem ofBytes_inj {left right : List (BitVec 8)} (lengths : left.length = right.length) :
    ofBytes (8 * left.length) left = ofBytes (8 * left.length) right ↔ left = right := by
  refine ⟨fun same => ?_, fun same => by rw [same]⟩
  refine List.ext_getElem lengths fun k before after => ?_
  refine BitVec.eq_of_getMsbD_eq fun i low => ?_
  have inside : 8 * k + i < 8 * left.length := by omega
  have one := getMsbD_ofBytes inside
  have two := getMsbD_ofBytes (lengths ▸ inside : 8 * k + i < 8 * right.length)
  rw [← lengths, ← same, one] at two
  have place : (8 * k + i) / 8 = k := by omega
  have rest : (8 * k + i) % 8 = i := by omega
  simp only [bit, place, rest, List.getD_eq_getElem?_getD, List.getElem?_eq_getElem before,
    List.getElem?_eq_getElem after, Option.getD_some] at two
  exact two

/-- Masked numbers are equal exactly if their leading bits are. -/
theorem mask_inj {length : Nat} (fits : length ≤ width) (left right : BitVec width) :
    left &&& BitVec.allOnes width <<< (width - length) =
        right &&& BitVec.allOnes width <<< (width - length) ↔
      ∀ i < length, left.getMsbD i = right.getMsbD i := by
  have mask : ∀ i, (BitVec.allOnes width <<< (width - length)).getMsbD i =
      decide (i < length) := by
    intro i
    rw [BitVec.getMsbD_shiftLeft, BitVec.getMsbD_allOnes]
    exact decide_eq_decide.mpr (by omega)
  constructor
  · intro same i inside
    have here := congrArg (BitVec.getMsbD · i) same
    simpa [mask, inside] using here
  · intro agree
    refine BitVec.eq_of_getMsbD_eq fun i _ => ?_
    by_cases inside : i < length
    · simp only [BitVec.getMsbD_and, agree i inside]
    · simp [mask, inside]

/-- The upper part of a number consists of the leading bytes. -/
theorem extract_upper {count : Nat} (length : bytes.length = count + width) :
    (ofBytes (8 * bytes.length) bytes).extractLsb' (8 * width) (8 * count) =
      ofBytes (8 * count) (bytes.take count) := by
  refine BitVec.eq_of_getLsbD_eq fun j inside => ?_
  have byte : bytes.reverse.getD ((8 * width + j) / 8) 0 =
      (bytes.take count).reverse.getD (j / 8) 0 := by
    have place : (8 * width + j) / 8 = width + j / 8 := by omega
    have front : (bytes.take count).reverse = bytes.reverse.drop width := by
      rw [List.reverse_take, length, Nat.add_sub_cancel_left]
    rw [place, front, List.getD_eq_getElem?_getD, List.getD_eq_getElem?_getD, List.getElem?_drop]
  have rest : (8 * width + j) % 8 = j % 8 := by omega
  rw [BitVec.getLsbD_extractLsb', decide_eq_true inside, Bool.true_and,
    getLsbD_ofBytes bytes (by omega), getLsbD_ofBytes _ inside, byte, rest]

/-- The lower part consists of the trailing bytes. -/
theorem extract_lower {count : Nat} (length : bytes.length = count + width) :
    (ofBytes (8 * bytes.length) bytes).extractLsb' 0 (8 * width) =
      ofBytes (8 * width) (bytes.drop count) := by
  refine BitVec.eq_of_getLsbD_eq fun j inside => ?_
  have byte : bytes.reverse.getD (j / 8) 0 = (bytes.drop count).reverse.getD (j / 8) 0 := by
    have back : (bytes.drop count).reverse = bytes.reverse.take width := by
      rw [List.reverse_drop, length, Nat.add_sub_cancel_left]
    rw [back, List.getD_eq_getElem?_getD, List.getD_eq_getElem?_getD,
      List.getElem?_take_of_lt (by omega)]
  rw [BitVec.getLsbD_extractLsb', decide_eq_true inside, Bool.true_and, Nat.zero_add,
    getLsbD_ofBytes bytes (by omega), getLsbD_ofBytes _ inside, byte]

end Bits

/-- The first twelve bytes of an IPv4-mapped IPv6 address. -/
def mappedFront : List (BitVec 8) :=
  List.replicate 10 0 ++ [0xff, 0xff]

/-- The IPv4 address that an IP slice denotes, in its own or in IPv4-mapped form. -/
def ipv4 (ip : List (BitVec 8)) : Option (List (BitVec 8)) :=
  if ip.length = 4 then some ip
  else if ip.length = 16 ∧ ip.take 12 = mappedFront then some (ip.drop 12)
  else none

/-- An IP slice of an IPv6 address that is not a mapped one. -/
def IsV6 (ip : List (BitVec 8)) : Prop :=
  ip.length = 16 ∧ ip.take 12 ≠ mappedFront

section Keys

variable {addr : TCPAddr} {four : List (BitVec 8)} {v6bits : Nat}

private theorem unmap_v6 {ip : List (BitVec 8)} (length : ip.length = 16) :
    (Addr.v6 (ofBytes 128 ip) "").unmap =
      if ip.take 12 = mappedFront then .v4 (ofBytes 32 (ip.drop 12))
      else .v6 (ofBytes 128 ip) "" := by
  have upper : (ofBytes 128 ip).extractLsb' 32 96 = ofBytes 96 (ip.take 12) := by
    have whole := extract_upper (show ip.length = 12 + 4 from length)
    rwa [length] at whole
  have lower : (ofBytes 128 ip).extractLsb' 0 32 = ofBytes 32 (ip.drop 12) := by
    have whole := extract_lower (show ip.length = 12 + 4 from length)
    rwa [length] at whole
  have front : (0xffff : BitVec 96) = ofBytes 96 mappedFront := by decide
  have twelve : (ip.take 12).length = mappedFront.length := by
    rw [List.length_take, length]
    rfl
  have mapped : ofBytes 96 (ip.take 12) = ofBytes 96 mappedFront ↔ ip.take 12 = mappedFront := by
    have inj := ofBytes_inj twelve
    rwa [twelve] at inj
  simp only [Addr.unmap, Addr.is4In6, upper, lower, front, mapped, decide_eq_true_eq]

/-- An IPv4 address in either form is its own key. -/
theorem ipKey_v4 (denotes : ipv4 addr.ip = some four) (v6bits : Nat) :
    four.length = 4 ∧ ipKey (.tcp addr) v6bits = (.v4 (ofBytes 32 four), true) := by
  unfold ipv4 at denotes
  split at denotes
  · rename_i length
    cases denotes
    refine ⟨length, ?_⟩
    simp only [ipKey, addrFromSlice, length, Addr.unmap, Addr.is6, Bool.false_and,
      Bool.false_eq_true, if_false]
  · split at denotes
    · rename_i mapped
      cases denotes
      refine ⟨by rw [List.length_drop, mapped.1], ?_⟩
      simp only [ipKey, addrFromSlice, mapped.1, unmap_v6 mapped.1, if_pos mapped.2, Addr.is6,
        Bool.false_and, Bool.false_eq_true, if_false]
    · cases denotes

/-- Another IPv6 address is masked, also where the source need not. -/
theorem ipKey_v6 (v6 : IsV6 addr.ip) (fits : v6bits ≤ 128) :
    ipKey (.tcp addr) v6bits =
      (.v6 (ofBytes 128 addr.ip &&& BitVec.allOnes 128 <<< (128 - v6bits)) "", true) := by
  obtain ⟨length, plain⟩ := v6
  simp only [ipKey, addrFromSlice, length, unmap_v6 length, if_neg plain, Addr.is6,
    Bool.true_and, decide_eq_true_eq]
  by_cases short : v6bits < 128
  · simp only [if_pos short, Addr.prefixAddr, if_pos fits]
  · have whole : 128 - v6bits = 0 := by omega
    simp only [if_neg short, whole, BitVec.shiftLeft_zero, BitVec.and_allOnes]

private theorem ipKey_none (length : addr.ip.length ≠ 4 ∧ addr.ip.length ≠ 16) (v6bits : Nat) :
    (ipKey (.tcp addr) v6bits).2 = false := by
  have invalid : addrFromSlice addr.ip = none := by
    unfold addrFromSlice
    split
    · exact absurd ‹_› length.1
    · exact absurd ‹_› length.2
    · rfl
  simp only [ipKey, invalid]

private theorem ip_cases (ip : List (BitVec 8)) :
    (∃ four, ipv4 ip = some four) ∧ (ip.length = 4 ∨ ip.length = 16) ∨ IsV6 ip ∨
      ip.length ≠ 4 ∧ ip.length ≠ 16 := by
  unfold ipv4 IsV6
  by_cases short : ip.length = 4
  · exact .inl ⟨⟨ip, if_pos short⟩, .inl short⟩
  · by_cases long : ip.length = 16
    · by_cases mapped : ip.take 12 = mappedFront
      · exact .inl ⟨⟨_, (if_neg short).trans (if_pos ⟨long, mapped⟩)⟩, .inr long⟩
      · exact .inr (.inl ⟨long, mapped⟩)
    · exact .inr (.inr ⟨short, long⟩)

private theorem getMsbD_ip {ip : List (BitVec 8)} (length : ip.length = 16) {i : Nat}
    (inside : i < 128) : (ofBytes 128 ip).getMsbD i = bit ip i := by
  have whole : i < 8 * ip.length → (ofBytes (8 * ip.length) ip).getMsbD i = bit ip i :=
    getMsbD_ofBytes
  rw [length] at whole
  exact whole inside

end Keys

/-- How two remote addresses are grouped under prefixes of `v6bits` bits. -/
structure Grouped (v6bits : Nat) (a b : TCPAddr) : Prop where
  keyless : (ipKey (.tcp a) v6bits).2 = false ↔ a.ip.length ≠ 4 ∧ a.ip.length ≠ 16
  /-- Keys are equal for the same IPv4 address and for the same IPv6 prefix. -/
  shared : (ipKey (.tcp a) v6bits).2 = true → (ipKey (.tcp b) v6bits).2 = true →
    ((ipKey (.tcp a) v6bits).1 = (ipKey (.tcp b) v6bits).1 ↔
      (∃ four, ipv4 a.ip = some four ∧ ipv4 b.ip = some four) ∨
      IsV6 a.ip ∧ IsV6 b.ip ∧ ∀ i < v6bits, bit a.ip i = bit b.ip i)
  apart : ∀ four, ipv4 a.ip = some four → IsV6 b.ip →
    (ipKey (.tcp a) v6bits).1 ≠ (ipKey (.tcp b) v6bits).1
  /-- Ports and zones do not matter. -/
  blind : ∀ port zone, ipKey (.tcp { a with port, zone }) v6bits = ipKey (.tcp a) v6bits

section Contract

variable {a b : TCPAddr} {v6bits : Nat}

private theorem ipKey_keyless (fits : v6bits ≤ 128) :
    (ipKey (.tcp a) v6bits).2 = false ↔ a.ip.length ≠ 4 ∧ a.ip.length ≠ 16 := by
  rcases ip_cases a.ip with ⟨⟨four, denotes⟩, known⟩ | v6 | unknown
  · rw [(ipKey_v4 denotes v6bits).2]
    refine iff_of_false nofun fun other => ?_
    exact known.elim other.1 other.2
  · rw [ipKey_v6 v6 fits]
    exact iff_of_false nofun fun other => other.2 v6.1
  · exact iff_of_true (ipKey_none unknown v6bits) unknown

private theorem ipKey_v6_inj (left : IsV6 a.ip) (right : IsV6 b.ip) (fits : v6bits ≤ 128) :
    (ipKey (.tcp a) v6bits).1 = (ipKey (.tcp b) v6bits).1 ↔
      ∀ i < v6bits, bit a.ip i = bit b.ip i := by
  rw [ipKey_v6 left fits, ipKey_v6 right fits]
  simp only [Addr.v6.injEq, and_true]
  rw [mask_inj fits]
  refine forall₂_congr fun i inside => ?_
  rw [getMsbD_ip left.1 (by omega), getMsbD_ip right.1 (by omega)]

private theorem ipKey_v4_inj {left right : List (BitVec 8)} (one : ipv4 a.ip = some left)
    (two : ipv4 b.ip = some right) :
    (ipKey (.tcp a) v6bits).1 = (ipKey (.tcp b) v6bits).1 ↔ left = right := by
  obtain ⟨four, key⟩ := ipKey_v4 one v6bits
  obtain ⟨four', key'⟩ := ipKey_v4 two v6bits
  rw [key, key']
  simp only [Addr.v4.injEq]
  have inj := ofBytes_inj (four.trans four'.symm)
  rwa [four] at inj

private theorem ipKey_apart {four : List (BitVec 8)} (one : ipv4 a.ip = some four) (two : IsV6 b.ip)
    (fits : v6bits ≤ 128) : (ipKey (.tcp a) v6bits).1 ≠ (ipKey (.tcp b) v6bits).1 := by
  rw [(ipKey_v4 one v6bits).2, ipKey_v6 two fits]
  exact nofun

theorem IsV6.not_ipv4 {ip : List (BitVec 8)} (v6 : IsV6 ip) : ipv4 ip = none := by
  obtain ⟨length, plain⟩ := v6
  rw [ipv4, if_neg (by omega), if_neg fun both => plain both.2]

private theorem ipKey_known (keyed : (ipKey (.tcp a) v6bits).2 = true) :
    (∃ four, ipv4 a.ip = some four) ∨ IsV6 a.ip := by
  rcases ip_cases a.ip with ⟨denotes, _⟩ | v6 | unknown
  · exact .inl denotes
  · exact .inr v6
  · rw [ipKey_none unknown] at keyed
    cases keyed

private theorem ipKey_shared (fits : v6bits ≤ 128) (keyed : (ipKey (.tcp a) v6bits).2 = true)
    (keyed' : (ipKey (.tcp b) v6bits).2 = true) :
    (ipKey (.tcp a) v6bits).1 = (ipKey (.tcp b) v6bits).1 ↔
      (∃ four, ipv4 a.ip = some four ∧ ipv4 b.ip = some four) ∨
      IsV6 a.ip ∧ IsV6 b.ip ∧ ∀ i < v6bits, bit a.ip i = bit b.ip i := by
  rcases ipKey_known keyed with ⟨left, one⟩ | one <;>
    rcases ipKey_known keyed' with ⟨right, two⟩ | two
  · rw [ipKey_v4_inj one two]
    constructor
    · rintro rfl
      exact .inl ⟨left, one, two⟩
    · rintro (⟨four, first, second⟩ | ⟨v6, _⟩)
      · exact Option.some.inj (one.symm.trans (first.trans (second.symm.trans two)))
      · rw [v6.not_ipv4] at one
        cases one
  · refine iff_of_false (ipKey_apart one two fits) ?_
    rintro (⟨four, _, second⟩ | ⟨v6, _⟩)
    · rw [two.not_ipv4] at second
      cases second
    · rw [v6.not_ipv4] at one
      cases one
  · refine iff_of_false (ipKey_apart two one fits).symm ?_
    rintro (⟨four, first, _⟩ | ⟨_, v6, _⟩)
    · rw [one.not_ipv4] at first
      cases first
    · rw [v6.not_ipv4] at two
      cases two
  · rw [ipKey_v6_inj one two fits]
    constructor
    · exact fun agree => .inr ⟨one, two, agree⟩
    · rintro (⟨four, first, _⟩ | ⟨_, _, agree⟩)
      · rw [one.not_ipv4] at first
        cases first
      · exact agree

/-- Clients are grouped as documented: by IPv4 address in either form, and by the leading
bits of any other IPv6 address. -/
theorem ipKey_groups (a b : TCPAddr) (fits : v6bits ≤ 128) : Grouped v6bits a b where
  keyless := ipKey_keyless fits
  shared := ipKey_shared fits
  apart _ one two := ipKey_apart one two fits
  blind _ _ := rfl

end Contract

/-- An IPv4 client as it is, and in IPv4-mapped form from another port. -/
def plainClient : TCPAddr :=
  ⟨[203, 0, 113, 7], 1000, ""⟩

def mappedClient : TCPAddr :=
  ⟨mappedFront ++ [203, 0, 113, 7], 2000, "eth0"⟩

theorem ipKey_groups_mapped :
    ipKey (.tcp plainClient) 64 = ipKey (.tcp mappedClient) 64 ∧
      Grouped 64 plainClient mappedClient :=
  ⟨by decide, ipKey_groups plainClient mappedClient (by decide)⟩

end Netx.Tcp
