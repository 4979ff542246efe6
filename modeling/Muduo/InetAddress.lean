import Muduo.Numerals
import Mathlib.Data.BitVec

/-!
# `InetAddress`

An IPv4 endpoint, its text, and the constructor that reads the text back.  `inet_addr`
takes one to four numbers in decimal, octal or hexadecimal, the last of them filling the
bytes that are left, and has no value for an error but `INADDR_NONE`, which is the address
255.255.255.255.
-/

namespace Muduo

open Numerals

/-! ### `inet_addr` -/

def isOctalDigit (c : Char) : Bool := c.isDigit && c != '8' && c != '9'

def isHexDigit (c : Char) : Bool :=
  c.isDigit || ('a' ≤ c && c ≤ 'f') || ('A' ≤ c && c ≤ 'F')

def hexValue (c : Char) : Nat :=
  if c.isDigit then c.toNat - '0'.toNat
  else if 'a' ≤ c then c.toNat - 'a'.toNat + 10
  else c.toNat - 'A'.toNat + 10

/-- `isspace` in the C locale. -/
def isSpace (c : Char) : Bool := c == ' ' || ('\t' ≤ c && c ≤ '\r')

/-- `strtoul(cp, &endp, 0)` on a text that begins with a digit: the value, without the bound
    of an `unsigned long`, and the text at `endp`. -/
def strtoul (cp : List Char) : Nat × List Char :=
  match cp with
  | '0' :: rest =>
    match rest with
    | x :: rest' =>
      if (x = 'x' ∨ x = 'X') ∧ (spanWhile isHexDigit rest').1 ≠ [] then
        let (digits, endp) := spanWhile isHexDigit rest'
        (digits.foldl (fun value c => 16 * value + hexValue c) 0, endp)
      else
        let (digits, endp) := spanWhile isOctalDigit cp
        (Nat.ofDigitChars 8 digits 0, endp)
    | [] => (0, [])
  | _ =>
    let (digits, endp) := spanWhile Char.isDigit cp
    (Nat.ofDigitChars 10 digits 0, endp)

/-- The numbers of the text between its dots; `dots` is how many of them are still allowed.
    Anything may follow a space. -/
def inetParts (dots : Nat) (cp : List Char) : Option (List Nat) :=
  if cp.head?.any Char.isDigit then
    let (val, endp) := strtoul cp
    if 0xffffffff < val then none
    else
      match dots, endp with
      | _, [] => some [val]
      | 0, c :: _ => if isSpace c then some [val] else none
      | dots + 1, c :: rest =>
        if c = '.' then
          if 0xff < val then none else (inetParts dots rest).map (val :: ·)
        else if isSpace c then some [val]
        else none
  else
    none

/-- `inet_aton`: the numbers but the last are one byte each. -/
def inetAton (cp : List Char) : Option Nat :=
  match inetParts 3 cp with
  | some [a] => some a
  | some [a, b] => if b ≤ 0xffffff then some (a * 2 ^ 24 + b) else none
  | some [a, b, c] => if c ≤ 0xffff then some (a * 2 ^ 24 + b * 2 ^ 16 + c) else none
  | some [a, b, c, d] =>
    if d ≤ 0xff then some (a * 2 ^ 24 + b * 2 ^ 16 + c * 2 ^ 8 + d) else none
  | _ => none

example : inetAton ['0', 'x', '7', 'f', '.', '1'] = some 0x7f000001 := by decide
example : inetAton ['0', '8'] = none := by decide

def INADDR_NONE : BitVec 32 := 0xffffffff

def inetAddr (cp : List Char) : BitVec 32 :=
  match inetAton cp with
  | some addr => BitVec.ofNat 32 addr
  | none => INADDR_NONE

/-- `inet_ntop(AF_INET, ...)`: the bytes in network order. -/
def inetNtop (addr : BitVec 32) : List Char :=
  decimal (addr.toNat / 2 ^ 24) ++ '.' :: (decimal (addr.toNat / 2 ^ 16 % 2 ^ 8) ++ '.' ::
    (decimal (addr.toNat / 2 ^ 8 % 2 ^ 8) ++ '.' :: decimal (addr.toNat % 2 ^ 8)))

/-- `htons` and `ntohs` on a little-endian machine. -/
def htons (port : BitVec 16) : BitVec 16 :=
  BitVec.ofNat 16 (port.toNat % 2 ^ 8 * 2 ^ 8 + port.toNat / 2 ^ 8)

/-! ### The class -/

/-- `addr_`: `sin_port` as it is stored, `sin_addr` as the number whose bytes from the highest
    one are those in memory. -/
structure InetAddress where
  sin_port : BitVec 16
  sin_addr : BitVec 32
deriving DecidableEq

namespace InetAddress

/-- The constructor.  `c_str()` ends at the first null character. -/
def new (port : BitVec 16) (ip : String) : InetAddress where
  sin_port := htons port
  sin_addr := inetAddr (ip.toList.takeWhile fun c => c != '\x00')

def toIp (a : InetAddress) : String := String.ofList (inetNtop a.sin_addr)

def toPort (a : InetAddress) : BitVec 16 := htons a.sin_port

def toIpPort (a : InetAddress) : String :=
  a.toIp ++ " : " ++ toString a.toPort.toNat

end InetAddress

/-! ### Reading back what was printed -/

/-- The end of the text or a dot. -/
def EndsPart (s : List Char) : Prop := s = [] ∨ ∃ rest, s = '.' :: rest

theorem EndsPart.stopsAt {s : List Char} (h : EndsPart s) {p : Char → Bool}
    (hdot : p '.' = false) : StopsAt p s := by
  rcases h with rfl | ⟨rest, rfl⟩
  · exact stopsAt_nil p
  · exact stopsAt_cons hdot

/-- `strtoul` reads a decimal numeral: that of zero as an octal one. -/
theorem strtoul_decimal (n : Nat) {s : List Char} (h : EndsPart s) :
    strtoul (decimal n ++ s) = (n, s) := by
  rcases Nat.eq_zero_or_pos n with rfl | hn
  · have hzero : decimal 0 = ['0'] := rfl
    have hspan : spanWhile isOctalDigit (['0'] ++ s) = (['0'], s) :=
      spanWhile_append (by simp [isOctalDigit]) (h.stopsAt rfl)
    rw [hzero]
    rcases h with rfl | ⟨rest, rfl⟩
    · rfl
    · simp only [List.singleton_append] at hspan
      simp [strtoul, hspan]
      rfl
  · obtain ⟨c, l, hdigits, hc⟩ := decimal_head hn
    have hspan := spanWhile_decimal n (h.stopsAt (p := Char.isDigit) rfl)
    have hdecimal : strtoul (c :: l ++ s) =
        (Nat.ofDigitChars 10 (spanWhile Char.isDigit (c :: l ++ s)).1 0,
          (spanWhile Char.isDigit (c :: l ++ s)).2) := by
      simp only [List.cons_append, strtoul]
      split
      · rename_i heq
        exact absurd (List.cons.inj heq).1 hc
      · rfl
    rw [hdigits, hdecimal, ← hdigits, hspan, ofDigitChars_decimal]

theorem decimal_append_head (n : Nat) (s : List Char) :
    (decimal n ++ s).head?.any Char.isDigit = true := by
  obtain ⟨c, l, hdigits⟩ := List.exists_cons_of_ne_nil (decimal_ne_nil n)
  have hc : c.isDigit = true := decimal_isDigit (hdigits ▸ List.mem_cons_self ..)
  rw [hdigits]
  simpa using hc

theorem inetParts_last {n : Nat} (dots : Nat) (hn : n ≤ 0xffffffff) :
    inetParts dots (decimal n) = some [n] := by
  have hhead := decimal_append_head n []
  have hread := strtoul_decimal n (Or.inl rfl)
  rw [List.append_nil] at hhead hread
  rw [inetParts.eq_def, if_pos hhead, hread]
  simp only [if_neg (Nat.not_lt.mpr hn)]

theorem inetParts_dot {n : Nat} (dots : Nat) (hn : n ≤ 0xff) (rest : List Char) :
    inetParts (dots + 1) (decimal n ++ '.' :: rest) = (inetParts dots rest).map (n :: ·) := by
  rw [inetParts.eq_def, if_pos (decimal_append_head n _), strtoul_decimal n (Or.inr ⟨rest, rfl⟩)]
  simp only [if_neg (show ¬ 0xffffffff < n by omega), if_neg (Nat.not_lt.mpr hn), if_true]

theorem inetParts_inetNtop (addr : BitVec 32) :
    inetParts 3 (inetNtop addr) =
      some [addr.toNat / 2 ^ 24, addr.toNat / 2 ^ 16 % 2 ^ 8, addr.toNat / 2 ^ 8 % 2 ^ 8,
        addr.toNat % 2 ^ 8] := by
  have hsize := addr.isLt
  rw [inetNtop, inetParts_dot 2 (by omega), inetParts_dot 1 (by omega), inetParts_dot 0 (by omega),
    inetParts_last 0 (by omega)]
  rfl

/-- The dotted quad is read back, also that of `INADDR_NONE`. -/
theorem inetAddr_inetNtop (addr : BitVec 32) : inetAddr (inetNtop addr) = addr := by
  have hsize := addr.isLt
  have hvalue : inetAton (inetNtop addr) = some addr.toNat := by
    simp only [inetAton, inetParts_inetNtop]
    rw [if_pos (by omega)]
    congr 1
    omega
  rw [inetAddr, hvalue]
  exact BitVec.ofNat_toNat .. |>.trans (BitVec.setWidth_eq addr)

theorem toNat_htons (port : BitVec 16) :
    (htons port).toNat = port.toNat % 2 ^ 8 * 2 ^ 8 + port.toNat / 2 ^ 8 := by
  have hsize := port.isLt
  rw [htons, BitVec.toNat_ofNat, Nat.mod_eq_of_lt (by omega)]

theorem htons_htons (port : BitVec 16) : htons (htons port) = port := by
  have hsize := port.isLt
  have hhigh : port.toNat / 2 ^ 8 < 2 ^ 8 := by omega
  apply BitVec.eq_of_toNat_eq
  rw [toNat_htons, toNat_htons, Nat.add_comm (port.toNat % 2 ^ 8 * 2 ^ 8),
    Nat.add_mul_mod_self_right, Nat.mod_eq_of_lt hhigh, Nat.add_mul_div_right _ _ (by decide),
    Nat.div_eq_of_lt hhigh]
  omega

/-- A dotted quad is digits and dots. -/
theorem mem_inetNtop {addr : BitVec 32} {c : Char} (h : c ∈ inetNtop addr) :
    c.isDigit = true ∨ c = '.' := by
  simp only [inetNtop, List.mem_append, List.mem_cons] at h
  rcases h with h | h | h | h | h | h | h
  · exact Or.inl (decimal_isDigit h)
  · exact Or.inr h
  · exact Or.inl (decimal_isDigit h)
  · exact Or.inr h
  · exact Or.inl (decimal_isDigit h)
  · exact Or.inr h
  · exact Or.inl (decimal_isDigit h)

namespace InetAddress

theorem new_toIp (a : InetAddress) (port : BitVec 16) :
    new port a.toIp = ⟨htons port, a.sin_addr⟩ := by
  have hall : ∀ c ∈ inetNtop a.sin_addr, (c != '\x00') = true := by
    intro c hc
    rcases mem_inetNtop hc with hdigit | rfl
    · rw [bne_iff_ne]
      rintro rfl
      cases hdigit
    · rfl
  have hwhole := congrArg Prod.fst (spanWhile_append hall (stopsAt_nil _))
  rw [List.append_nil] at hwhole
  rw [new, toIp, String.toList_ofList, show List.takeWhile _ _ = _ from hwhole, inetAddr_inetNtop]

theorem toPort_new (port : BitVec 16) (ip : String) : (new port ip).toPort = port :=
  htons_htons port

theorem toIpPort_toList (a : InetAddress) : a.toIpPort.toList =
    inetNtop a.sin_addr ++ ' ' :: (':' :: ' ' :: decimal a.toPort.toNat) := by
  simp [toIpPort, toIp, decimal]

/-- The separator is found again: a dotted quad has no space. -/
theorem toIpPort_injective {a b : InetAddress} (h : a.toIpPort = b.toIpPort) : a = b := by
  have hlists := congrArg String.toList h
  rw [toIpPort_toList, toIpPort_toList] at hlists
  have hspan : ∀ (addr : BitVec 32) (rest : List Char),
      spanWhile (fun c => c.isDigit || c == '.') (inetNtop addr ++ ' ' :: rest) =
        (inetNtop addr, ' ' :: rest) := by
    intro addr rest
    apply spanWhile_append _ (stopsAt_cons rfl)
    intro c hc
    simpa using mem_inetNtop hc
  have hparts := congrArg (spanWhile fun c => c.isDigit || c == '.') hlists
  rw [hspan, hspan, Prod.mk.injEq] at hparts
  obtain ⟨hips, hports⟩ := hparts
  have haddr : a.sin_addr = b.sin_addr := by
    rw [← inetAddr_inetNtop a.sin_addr, hips, inetAddr_inetNtop]
  have hport : a.toPort = b.toPort :=
    BitVec.eq_of_toNat_eq (decimal_injective (by simpa using hports))
  have hstored : a.sin_port = b.sin_port := by
    rw [← htons_htons a.sin_port, ← htons_htons b.sin_port]
    exact congrArg htons hport
  cases a
  cases b
  simp_all

end InetAddress

/-- **An address and its text.**  The constructor reads back what `toIp` and `toPort` give,
    so two addresses with one `toIpPort` are the same, and an address made of any text has a
    text that makes it again.  A text that `inet_addr` does not take makes the address that
    the text 255.255.255.255 makes. -/
theorem inet_address_round_trip (a b : InetAddress) (port : BitVec 16) (ip : String) :
    InetAddress.new a.toPort a.toIp = a ∧
    (a.toIpPort = b.toIpPort ↔ a = b) ∧
    (InetAddress.new port ip).toPort = port ∧
    InetAddress.new port (InetAddress.new port ip).toIp = InetAddress.new port ip ∧
    (inetAton (ip.toList.takeWhile fun c => c != '\x00') = none →
      InetAddress.new port ip = InetAddress.new port "255.255.255.255") := by
  refine ⟨?_, ⟨InetAddress.toIpPort_injective, congrArg _⟩, ?_, ?_, ?_⟩
  · rw [InetAddress.new_toIp, InetAddress.toPort, htons_htons]
  · exact InetAddress.toPort_new port ip
  · rw [InetAddress.new_toIp, InetAddress.new]
  · intro hinvalid
    have hnone : InetAddress.new port ip = ⟨htons port, INADDR_NONE⟩ := by
      rw [InetAddress.new, inetAddr, hinvalid]
    have hquad : inetNtop INADDR_NONE =
        ['2', '5', '5', '.', '2', '5', '5', '.', '2', '5', '5', '.', '2', '5', '5'] := by decide
    have htext : (⟨htons port, INADDR_NONE⟩ : InetAddress).toIp = "255.255.255.255" := by
      simp [InetAddress.toIp, hquad]
    rw [hnone, ← htext, InetAddress.new_toIp]

end Muduo
