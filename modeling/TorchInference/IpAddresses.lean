import Mathlib.Data.List.Basic
import Mathlib.Data.UInt
import TorchInference.AddressBlocks

/-!
# Reading IP addresses

The parser of the standard library reads dotted IPv4 addresses and all
spellings of IPv6 addresses: a run of zero groups may be left out once, and the
last two groups may be written as an IPv4 address.  What is read is a prefix of
the text, and an address takes the whole of it.
-/

namespace TorchInference

structure Ipv4Addr where
  a : UInt8
  b : UInt8
  c : UInt8
  d : UInt8
  deriving DecidableEq

/-- The eight segments, the first one first. -/
structure Ipv6Addr where
  s0 : UInt16
  s1 : UInt16
  s2 : UInt16
  s3 : UInt16
  s4 : UInt16
  s5 : UInt16
  s6 : UInt16
  s7 : UInt16
  deriving DecidableEq

inductive IpAddr where
  | v4 (address : Ipv4Addr)
  | v6 (address : Ipv6Addr)
  deriving DecidableEq

def Ipv4Addr.value (address : Ipv4Addr) : Nat :=
  ((address.a.toNat * 256 + address.b.toNat) * 256 + address.c.toNat) * 256 +
    address.d.toNat

def Ipv6Addr.value (address : Ipv6Addr) : Nat :=
  ((((((address.s0.toNat * 65536 + address.s1.toNat) * 65536 +
    address.s2.toNat) * 65536 + address.s3.toNat) * 65536 +
    address.s4.toNat) * 65536 + address.s5.toNat) * 65536 +
    address.s6.toNat) * 65536 + address.s7.toNat

namespace IpParser

/-- A reader returns what it has read and the rest, or fails and reads
nothing. -/
abbrev Reader (α : Type) :=
  List Char → Option (α × List Char)

/-- `char::to_digit`, for a radix up to 16. -/
def toDigit (radix : Nat) (c : Char) : Option Nat :=
  let value :=
    if '0' ≤ c ∧ c ≤ '9' then c.toNat - '0'.toNat
    else if 'a' ≤ c ∧ c ≤ 'f' then c.toNat - 'a'.toNat + 10
    else if 'A' ≤ c ∧ c ≤ 'F' then c.toNat - 'A'.toNat + 10
    else radix
  if value < radix then some value else none

/-- The digits at the front, and what follows them. -/
def readDigits (radix : Nat) : List Char → List Nat × List Char
  | [] => ([], [])
  | c :: input =>
      match toDigit radix c with
      | none => ([], c :: input)
      | some digit =>
          let later := readDigits radix input
          (digit :: later.1, later.2)

/-- A number below a bound, of at most so many digits. -/
def readNumber (radix maxDigits : Nat) (allowZeroPrefix : Bool)
    (bound : Nat) : Reader Nat := fun input =>
  let (digits, rest) := readDigits radix input
  let value := digits.foldl (fun value digit => value * radix + digit) 0
  if digits.length = 0 ∨ maxDigits < digits.length then none
  else if !allowZeroPrefix && digits.head? == some 0 && 1 < digits.length then
    none
  else if value < bound then some (value, rest)
  else none

def readGivenChar (target : Char) : Reader Unit
  | c :: input => if c = target then some ((), input) else none
  | [] => none

/-- Every reading but the first follows a separator. -/
def readSeparator {α : Type} (sep : Char) (index : Nat) (inner : Reader α) :
    Reader α := fun input =>
  if 0 < index then
    match readGivenChar sep input with
    | some ((), rest) => inner rest
    | none => none
  else inner input

/-- An octet of an IPv4 address. -/
def readOctet (index : Nat) : Reader UInt8 := fun input =>
  (readSeparator '.' index (readNumber 10 3 false 256) input).map
    fun (value, rest) => (UInt8.ofNat value, rest)

def readIpv4Addr : Reader Ipv4Addr := fun input => do
  let (a, rest) ← readOctet 0 input
  let (b, rest) ← readOctet 1 rest
  let (c, rest) ← readOctet 2 rest
  let (d, rest) ← readOctet 3 rest
  some (⟨a, b, c, d⟩, rest)

/-- `u16::from_be_bytes`. -/
def fromBeBytes (high low : UInt8) : UInt16 :=
  UInt16.ofNat (high.toNat * 256 + low.toNat)

/-- The groups from an index on, with room for so many; the flag says that an
embedded IPv4 address has been read, which ends them. -/
def readGroups : Nat → Nat → List Char → List UInt16 × Bool × List Char
  | 0, _, input => ([], false, input)
  | room + 1, index, input =>
      let embedded :=
        if 1 ≤ room then readSeparator ':' index readIpv4Addr input else none
      match embedded with
      | some (v4, rest) =>
          ([fromBeBytes v4.a v4.b, fromBeBytes v4.c v4.d], true, rest)
      | none =>
          match readSeparator ':' index (readNumber 16 4 true 65536) input with
          | none => ([], false, input)
          | some (group, rest) =>
              let later := readGroups room (index + 1) rest
              (UInt16.ofNat group :: later.1, later.2)

/-- The address with the given segments; missing ones are zero. -/
def fromGroups (groups : List UInt16) : Ipv6Addr where
  s0 := groups.getD 0 0
  s1 := groups.getD 1 0
  s2 := groups.getD 2 0
  s3 := groups.getD 3 0
  s4 := groups.getD 4 0
  s5 := groups.getD 5 0
  s6 := groups.getD 6 0
  s7 := groups.getD 7 0

def readIpv6Addr : Reader Ipv6Addr := fun input =>
  let (head, headIpv4, rest) := readGroups 8 0 input
  if head.length = 8 then some (fromGroups head, rest)
  else if headIpv4 then none
  else
    match readGivenChar ':' rest with
    | none => none
    | some ((), rest) =>
        match readGivenChar ':' rest with
        | none => none
        | some ((), rest) =>
            -- The two colons stand for at least one group of zeroes.
            let (tail, _, rest) := readGroups (8 - (head.length + 1)) 0 rest
            let zeroes := List.replicate (8 - head.length - tail.length) 0
            some (fromGroups (head ++ zeroes ++ tail), rest)

def readIpAddr : Reader IpAddr := fun input =>
  match readIpv4Addr input with
  | some (address, rest) => some (.v4 address, rest)
  | none => (readIpv6Addr input).map fun (address, rest) => (.v6 address, rest)

/-- `str::parse::<IpAddr>`: the address has to take the whole text. -/
def parseIpAddr (text : List Char) : Option IpAddr :=
  match readIpAddr text with
  | some (address, []) => some address
  | _ => none

example : parseIpAddr "64:ff9b::7f00:1".toList =
    some (.v6 ⟨0x64, 0xff9b, 0, 0, 0, 0, 0x7f00, 1⟩) := by
  decide

example : parseIpAddr "::ffff:127.0.0.1".toList =
    some (.v6 ⟨0, 0, 0, 0, 0, 0xffff, 0x7f00, 1⟩) := by
  decide

/-! ## What a reader takes -/

/-- A character that stands in an address. -/
def IsAddressChar (c : Char) : Prop :=
  (toDigit 16 c).isSome = true ∨ c = '.' ∨ c = ':'

instance (c : Char) : Decidable (IsAddressChar c) :=
  inferInstanceAs (Decidable (_ ∨ _))

/-- Characters of an address have been taken from the front of a text. -/
def Takes (input rest : List Char) : Prop :=
  ∃ taken, input = taken ++ rest ∧ ∀ c ∈ taken, IsAddressChar c

theorem Takes.refl (input : List Char) : Takes input input :=
  ⟨[], rfl, by simp⟩

theorem Takes.trans {input middle rest : List Char}
    (first : Takes input middle) (second : Takes middle rest) :
    Takes input rest := by
  obtain ⟨front, rfl, inFront⟩ := first
  obtain ⟨back, rfl, inBack⟩ := second
  exact ⟨front ++ back, (List.append_assoc front back rest).symm,
    List.forall_mem_append.mpr ⟨inFront, inBack⟩⟩

theorem Takes.cons {c : Char} {input rest : List Char}
    (isAddressChar : IsAddressChar c) (takes : Takes input rest) :
    Takes (c :: input) rest := by
  obtain ⟨taken, rfl, inTaken⟩ := takes
  exact ⟨c :: taken, rfl, List.forall_mem_cons.mpr ⟨isAddressChar, inTaken⟩⟩

/-- A digit is one in every larger radix. -/
theorem isSome_toDigit_of_le {radix : Nat} {c : Char} (le : radix ≤ 16)
    (isDigit : (toDigit radix c).isSome = true) :
    (toDigit 16 c).isSome = true := by
  unfold toDigit at isDigit ⊢
  split_ifs at isDigit ⊢ <;> simp_all <;> omega

theorem readDigits_takes {radix : Nat} (le : radix ≤ 16)
    (input : List Char) : Takes input (readDigits radix input).2 := by
  induction input with
  | nil => exact .refl []
  | cons c input ih =>
      unfold readDigits
      cases digit : toDigit radix c with
      | none => exact .refl _
      | some value =>
          exact .cons (.inl (isSome_toDigit_of_le le (by simp [digit]))) ih

/-- Whatever a reader reads consists of characters of an address. -/
def TakesAddressChars {α : Type} (reader : Reader α) : Prop :=
  ∀ input value rest, reader input = some (value, rest) → Takes input rest

theorem readNumber_takes {radix maxDigits bound : Nat} {allowZeroPrefix : Bool}
    (le : radix ≤ 16) :
    TakesAddressChars (readNumber radix maxDigits allowZeroPrefix bound) := by
  intro input value rest reads
  unfold readNumber at reads
  dsimp only at reads
  split_ifs at reads
  obtain ⟨-, rfl⟩ := Prod.mk.inj (Option.some.inj reads)
  exact readDigits_takes le input

theorem readGivenChar_takes {target : Char}
    (isAddressChar : IsAddressChar target) :
    TakesAddressChars (readGivenChar target) := by
  intro input value rest reads
  cases input with
  | nil => cases reads
  | cons c input =>
      rw [readGivenChar] at reads
      split_ifs at reads with same
      obtain ⟨-, rfl⟩ := Prod.mk.inj (Option.some.inj reads)
      exact .cons (same ▸ isAddressChar) (.refl _)

theorem readSeparator_takes {α : Type} {sep : Char} {index : Nat}
    {inner : Reader α} (isAddressChar : IsAddressChar sep)
    (takes : TakesAddressChars inner) :
    TakesAddressChars (readSeparator sep index inner) := by
  intro input value rest reads
  unfold readSeparator at reads
  split_ifs at reads
  · cases separated : readGivenChar sep input with
    | none => simp [separated] at reads
    | some result =>
        obtain ⟨_, middle⟩ := result
        rw [separated] at reads
        exact (readGivenChar_takes isAddressChar _ _ _ separated).trans
          (takes _ _ _ reads)
  · exact takes _ _ _ reads

theorem readOctet_takes (index : Nat) : TakesAddressChars (readOctet index) := by
  intro input value rest reads
  obtain ⟨⟨number, middle⟩, number_read, same⟩ :=
    Option.map_eq_some_iff.mp reads
  obtain ⟨-, rfl⟩ := Prod.mk.inj same
  exact readSeparator_takes (by decide) (readNumber_takes (by decide)) _ _ _
    number_read

theorem readIpv4Addr_takes : TakesAddressChars readIpv4Addr := by
  intro input value rest reads
  simp only [readIpv4Addr, Option.bind_eq_bind, Option.bind_eq_some_iff]
    at reads
  obtain ⟨⟨a, afterA⟩, readsA, ⟨b, afterB⟩, readsB, ⟨c, afterC⟩, readsC,
    ⟨d, afterD⟩, readsD, whole⟩ := reads
  obtain ⟨-, rfl⟩ := Prod.mk.inj (Option.some.inj whole)
  exact (((readOctet_takes 0 _ _ _ readsA).trans
    (readOctet_takes 1 _ _ _ readsB)).trans
    (readOctet_takes 2 _ _ _ readsC)).trans (readOctet_takes 3 _ _ _ readsD)

theorem readGroups_takes (room index : Nat) (input : List Char) :
    Takes input (readGroups room index input).2.2 := by
  induction room generalizing index input with
  | zero => exact .refl input
  | succ room ih =>
      unfold readGroups
      dsimp only
      split
      · next v4 rest embedded =>
          split_ifs at embedded
          exact readSeparator_takes (by decide) readIpv4Addr_takes _ _ _
            embedded
      · split
        · exact .refl input
        · next group rest reads =>
            exact (readSeparator_takes (by decide)
              (readNumber_takes (by decide)) _ _ _ reads).trans (ih _ rest)

theorem readIpv6Addr_takes : TakesAddressChars readIpv6Addr := by
  intro input value rest reads
  have head := readGroups_takes 8 0 input
  unfold readIpv6Addr at reads
  dsimp only at reads
  split_ifs at reads
  · obtain ⟨-, rfl⟩ := Prod.mk.inj (Option.some.inj reads)
    exact head
  · split at reads
    · cases reads
    next _ middle first =>
    split at reads
    · cases reads
    next _ later second =>
    obtain ⟨-, rfl⟩ := Prod.mk.inj (Option.some.inj reads)
    have colon : IsAddressChar ':' := by decide
    exact ((head.trans (readGivenChar_takes colon _ _ _ first)).trans
      (readGivenChar_takes colon _ _ _ second)).trans (readGroups_takes _ 0 _)

/-- A text that is an address has characters of an address only. -/
theorem isAddressChar_of_parse {text : List Char} {address : IpAddr}
    (parses : parseIpAddr text = some address) :
    ∀ c ∈ text, IsAddressChar c := by
  have takes : Takes text [] := by
    unfold parseIpAddr readIpAddr at parses
    cases v4 : readIpv4Addr text with
    | some result =>
        obtain ⟨found, rest⟩ := result
        cases rest with
        | nil => exact readIpv4Addr_takes _ _ _ v4
        | cons c rest => simp [v4] at parses
    | none =>
        cases v6 : readIpv6Addr text with
        | none => simp [v4, v6] at parses
        | some result =>
            obtain ⟨found, rest⟩ := result
            cases rest with
            | nil => exact readIpv6Addr_takes _ _ _ v6
            | cons c rest => simp [v4, v6] at parses
  obtain ⟨taken, whole, inTaken⟩ := takes
  rw [whole, List.append_nil]
  exact inTaken

end IpParser

end TorchInference
