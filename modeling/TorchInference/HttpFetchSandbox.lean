import TorchInference.HttpFetch

/-!
# The sandbox of the fetching tool

Which addresses must not be reached is said by blocks of numbers, for IPv4 and
for IPv6 and for the forms in which an IPv6 address embeds an IPv4 address.
The tests of octets and segments decide the blocks and one of these forms; the
other forms, and the name `localhost` with a dot at its end, are missed.
-/

namespace TorchInference

open AddressBlock IpParser

/-! ## Addresses that must not be reached -/

/-- The base of a block and its free bits: loopback, the private networks,
unspecified, link-local, carrier-grade NAT and broadcast. -/
def reservedBlocks : List (Nat × Nat) :=
  [(127 * 2 ^ 24, 24), (10 * 2 ^ 24, 24), ((172 * 256 + 16) * 2 ^ 16, 20),
    ((192 * 256 + 168) * 2 ^ 16, 16), (0, 0),
    ((169 * 256 + 254) * 2 ^ 16, 16), ((100 * 256 + 64) * 2 ^ 16, 22),
    (2 ^ 32 - 1, 0)]

def ReservedV4 (address : Nat) : Prop :=
  ∃ block ∈ reservedBlocks, Within block.1 block.2 address

instance (address : Nat) : Decidable (ReservedV4 address) :=
  inferInstanceAs (Decidable (∃ block ∈ reservedBlocks, _))

/-- The forms in which an IPv6 address embeds an IPv4 address. -/
inductive EmbeddingForm where
  | mapped
  | compatible
  | nat64
  | sixToFour
  deriving DecidableEq

namespace EmbeddingForm

/-- The block of a form: `::ffff:0:0/96`, `::/96`, `64:ff9b::/96` and
`2002::/16`. -/
def Holds (form : EmbeddingForm) (address : Nat) : Prop :=
  match form with
  | mapped => Within (0xffff * 2 ^ 32) 32 address
  | compatible => Within 0 32 address
  | nat64 => Within ((0x64 * 2 ^ 16 + 0xff9b) * 2 ^ 96) 32 address
  | sixToFour => Within (0x2002 * 2 ^ 112) 112 address

/-- The embedded address. -/
def embedded (form : EmbeddingForm) (address : Nat) : Nat :=
  match form with
  | mapped | compatible | nat64 => address % 2 ^ 32
  | sixToFour => address / 2 ^ 80 % 2 ^ 32

instance (form : EmbeddingForm) (address : Nat) :
    Decidable (form.Holds address) :=
  match form with
  | mapped | compatible | nat64 | sixToFour => inferInstanceAs
      (Decidable (Within _ _ address))

def EmbedsReserved (form : EmbeddingForm) (address : Nat) : Prop :=
  form.Holds address ∧ ReservedV4 (form.embedded address)

end EmbeddingForm

/-- Loopback, unspecified, unique-local and link-local addresses, and those
that embed an IPv4 address that must not be reached. -/
def ReservedV6 (address : Nat) : Prop :=
  Within 1 0 address ∨ Within 0 0 address ∨
    Within (0xfc00 * 2 ^ 112) 121 address ∨
    Within (0xfe80 * 2 ^ 112) 118 address ∨
    ∃ form : EmbeddingForm, form.EmbedsReserved address

/-- What the text of a host stands for. -/
inductive HostMeaning where
  | v4 (address : Ipv4Addr)
  | v6 (address : Ipv6Addr)
  | name (text : String)

/-- The hosts of parsed URLs: an IPv4 address, an IPv6 address between
brackets, or another text without brackets. -/
inductive Denotes : String → HostMeaning → Prop
  | v4 {host : String} {address : Ipv4Addr}
      (parses : parseIpAddr host.toList = some (.v4 address)) :
      Denotes host (.v4 address)
  | v6 {text : List Char} {address : Ipv6Addr}
      (parses : parseIpAddr text = some (.v6 address)) :
      Denotes (String.ofList ('[' :: text ++ [']'])) (.v6 address)
  | name {host : String} (noBrackets : ∀ c ∈ host.toList, c ≠ '[' ∧ c ≠ ']')
      (noAddress : parseIpAddr host.toList = none) :
      Denotes host (.name host)

def HostMeaning.Reserved : HostMeaning → Prop
  | v4 address => ReservedV4 address.value
  | v6 address => ReservedV6 address.value
  | name text => text = "localhost" ∨ text = "localhost."

/-- What the checks let through although it must not be reached: IPv6
addresses that embed an IPv4 address in another form than the mapped one,
except the unspecified address, and `localhost` with a dot. -/
def HostMeaning.Missed : HostMeaning → Prop
  | v4 _ => False
  | v6 address => address.value ≠ 0 ∧
      ∃ form : EmbeddingForm, form ≠ .mapped ∧
        form.EmbedsReserved address.value
  | name text => text = "localhost."

/-! ## The tests of octets -/

theorem isPrivateV4_iff (v4 : Ipv4Addr) :
    isPrivateV4 v4 = true ↔ ReservedV4 v4.value := by
  obtain ⟨a, b, c, d⟩ := v4
  have boundA := a.toNat_lt
  have boundB := b.toNat_lt
  have boundC := c.toNat_lt
  have boundD := d.toNat_lt
  generalize value_eq : (⟨a, b, c, d⟩ : Ipv4Addr).value = value
  simp only [Ipv4Addr.value] at value_eq
  have loopback : Within (127 * 2 ^ 24) 24 value ↔ a.toNat = 127 := by
    unfold Within
    omega
  have ten : Within (10 * 2 ^ 24) 24 value ↔ a.toNat = 10 := by
    unfold Within
    omega
  have sixteen : Within ((172 * 256 + 16) * 2 ^ 16) 20 value ↔
      a.toNat = 172 ∧ 16 ≤ b.toNat ∧ b.toNat ≤ 31 := by
    unfold Within
    omega
  have oneSixEight : Within ((192 * 256 + 168) * 2 ^ 16) 16 value ↔
      a.toNat = 192 ∧ b.toNat = 168 := by
    unfold Within
    omega
  have unspecified : Within 0 0 value ↔
      a.toNat = 0 ∧ b.toNat = 0 ∧ c.toNat = 0 ∧ d.toNat = 0 := by
    unfold Within
    omega
  have linkLocal : Within ((169 * 256 + 254) * 2 ^ 16) 16 value ↔
      a.toNat = 169 ∧ b.toNat = 254 := by
    unfold Within
    omega
  have masked : b &&& 0xc0 = 0x40 ↔ Within 64 6 b.toNat := by
    rw [← UInt8.toNat_inj, UInt8.toNat_and]
    exact @and_highMask_eq_iff 8 6 64 _ boundB (by decide) (by decide)
  have carrierGrade : Within ((100 * 256 + 64) * 2 ^ 16) 22 value ↔
      a.toNat = 100 ∧ Within 64 6 b.toNat := by
    unfold Within
    omega
  have broadcast : Within (2 ^ 32 - 1) 0 value ↔
      a.toNat = 255 ∧ b.toNat = 255 ∧ c.toNat = 255 ∧ d.toNat = 255 := by
    unfold Within
    omega
  simp only [isPrivateV4, Ipv4Addr.isLoopback, Ipv4Addr.isPrivate,
    Ipv4Addr.isUnspecified, Bool.or_eq_true, Bool.and_eq_true, beq_iff_eq,
    decide_eq_true_eq, Ipv4Addr.mk.injEq, masked, ← UInt8.toNat_inj,
    UInt8.le_iff_toNat_le, UInt8.reduceToNat, ReservedV4, reservedBlocks,
    List.mem_cons, List.not_mem_nil, or_false, exists_eq_or_imp,
    exists_eq_left, loopback, ten, sixteen, oneSixEight, unspecified,
    linkLocal, carrierGrade, broadcast, or_assoc, and_assoc]

/-! ## The tests of segments -/

/-- The embedded octets of the last two segments have the value of the last
bits. -/
theorem value_of_segments (s6 s7 : UInt16) :
    (⟨(s6 >>> 8).toUInt8, (s6 &&& 0xff).toUInt8, (s7 >>> 8).toUInt8,
      (s7 &&& 0xff).toUInt8⟩ : Ipv4Addr).value =
      s6.toNat * 65536 + s7.toNat := by
  have bound6 := s6.toNat_lt
  have bound7 := s7.toNat_lt
  simp only [Ipv4Addr.value, UInt16.toNat_toUInt8, UInt16.toNat_shiftRight,
    UInt16.toNat_and, UInt16.reduceToNat, Nat.shiftRight_eq_div_pow,
    Nat.reduceMod, Nat.reducePow]
  have low (x : Nat) : x &&& 255 = x % 256 := Nat.and_two_pow_sub_one_eq_mod x 8
  rw [low, low]
  omega

/-- The segments that the code compares say which blocks an address is in. -/
structure SegmentFacts (v6 : Ipv6Addr) : Prop where
  loopback : Within 1 0 v6.value ↔ v6.isLoopback = true
  unspecified : Within 0 0 v6.value ↔ v6.isUnspecified = true
  mapped : EmbeddingForm.mapped.Holds v6.value ↔
    ((((v6.s0 = 0 ∧ v6.s1 = 0) ∧ v6.s2 = 0) ∧ v6.s3 = 0) ∧ v6.s4 = 0) ∧
      v6.s5 = 0xffff
  low : v6.value % 2 ^ 32 = v6.s6.toNat * 65536 + v6.s7.toNat
  uniqueLocal : Within (0xfc00 * 2 ^ 112) 121 v6.value ↔
    v6.s0 &&& 0xfe00 = 0xfc00
  linkLocal : Within (0xfe80 * 2 ^ 112) 118 v6.value ↔
    v6.s0 &&& 0xffc0 = 0xfe80

theorem segmentFacts (v6 : Ipv6Addr) : SegmentFacts v6 := by
  obtain ⟨s0, s1, s2, s3, s4, s5, s6, s7⟩ := v6
  have bound0 := s0.toNat_lt
  have bound1 := s1.toNat_lt
  have bound2 := s2.toNat_lt
  have bound3 := s3.toNat_lt
  have bound4 := s4.toNat_lt
  have bound5 := s5.toNat_lt
  have bound6 := s6.toNat_lt
  have bound7 := s7.toNat_lt
  obtain ⟨value, whole⟩ : ∃ value,
      (⟨s0, s1, s2, s3, s4, s5, s6, s7⟩ : Ipv6Addr).value = value :=
    ⟨_, rfl⟩
  have value_eq := whole
  simp only [Ipv6Addr.value] at value_eq
  have split : ∃ low < 2 ^ 112, value = s0.toNat * 2 ^ 112 + low :=
    ⟨value % 2 ^ 112, Nat.mod_lt _ (by decide), by omega⟩
  obtain ⟨low, small, leading⟩ := split
  have masked (free base : Nat) (le : free ≤ 16) (aligned : 2 ^ free ∣ base) :
      Within (base * 2 ^ 112) (112 + free) value ↔
        s0.toNat &&& (2 ^ 16 - 2 ^ free) = base := by
    rw [leading, within_digits_iff small,
      and_highMask_eq_iff bound0 le aligned]
  constructor
  all_goals rw [whole]
  · rw [within_zero_iff]
    simp only [Ipv6Addr.isLoopback, beq_iff_eq, Ipv6Addr.mk.injEq,
      ← UInt16.toNat_inj, UInt16.reduceToNat]
    omega
  · rw [within_zero_iff]
    simp only [Ipv6Addr.isUnspecified, beq_iff_eq, Ipv6Addr.mk.injEq,
      ← UInt16.toNat_inj, UInt16.reduceToNat]
    omega
  · simp only [EmbeddingForm.Holds, Within, ← UInt16.toNat_inj,
      UInt16.reduceToNat]
    omega
  · dsimp only
    omega
  · rw [← UInt16.toNat_inj, UInt16.toNat_and]
    exact masked 9 0xfc00 (by decide) (by decide)
  · rw [← UInt16.toNat_inj, UInt16.toNat_and]
    exact masked 6 0xfe80 (by decide) (by decide)

theorem isPrivateV6_iff (v6 : Ipv6Addr) :
    isPrivateV6 v6 = true ↔
      Within 1 0 v6.value ∨ Within 0 0 v6.value ∨
        Within (0xfc00 * 2 ^ 112) 121 v6.value ∨
        Within (0xfe80 * 2 ^ 112) 118 v6.value ∨
        EmbeddingForm.mapped.EmbedsReserved v6.value := by
  obtain ⟨loopback, unspecified, mapped, low, uniqueLocal, linkLocal⟩ :=
    segmentFacts v6
  rw [loopback, unspecified, uniqueLocal, linkLocal,
    EmbeddingForm.EmbedsReserved, mapped, EmbeddingForm.embedded, low,
    ← value_of_segments, ← isPrivateV4_iff]
  have notUniqueLocal : v6.s0 = 0 → v6.s0 &&& 0xfe00 ≠ 0xfc00 := by
    rintro zero
    rw [zero]
    decide
  have notLinkLocal : v6.s0 = 0 → v6.s0 &&& 0xffc0 ≠ 0xfe80 := by
    rintro zero
    rw [zero]
    decide
  simp only [isPrivateV6, Bool.or_eq_true, Bool.and_eq_true, beq_iff_eq]
  split_ifs with special isMapped isUniqueLocal isLinkLocal
  · exact iff_of_true rfl (special.imp_right .inl)
  · rw [or_iff_right (fun isLoopback => special (.inl isLoopback)),
      or_iff_right (fun isUnspecified => special (.inr isUnspecified)),
      or_iff_right (notUniqueLocal isMapped.1.1.1.1.1),
      or_iff_right (notLinkLocal isMapped.1.1.1.1.1), and_iff_right isMapped]
  · exact iff_of_true rfl (.inr (.inr (.inl isUniqueLocal)))
  · exact iff_of_true rfl (.inr (.inr (.inr (.inl isLinkLocal))))
  · refine iff_of_false id ?_
    rintro (l | u | isUnique | isLink | ⟨isMapped', -⟩)
    · exact special (.inl l)
    · exact special (.inr u)
    · exact isUniqueLocal isUnique
    · exact isLinkLocal isLink
    · exact isMapped isMapped'

/-! ## What the checks miss -/

/-- The forms other than the mapped one are apart from all blocks that the
code tests, the unspecified address excepted. -/
theorem not_private_of_embeds {form : EmbeddingForm} {v6 : Ipv6Addr}
    (notMapped : form ≠ .mapped) (nonzero : v6.value ≠ 0)
    (embeds : form.EmbedsReserved v6.value) : ¬ isPrivateV6 v6 = true := by
  rw [isPrivateV6_iff, within_zero_iff, within_zero_iff]
  generalize v6.value = value at nonzero embeds ⊢
  obtain ⟨holds, reserved⟩ := embeds
  cases form with
  | mapped => exact absurd rfl notMapped
  | compatible =>
      simp only [EmbeddingForm.Holds, Within] at holds
      rintro (rfl | isZero | isUnique | isLink | ⟨isMapped, -⟩)
      · revert reserved
        decide
      · exact nonzero isZero
      · simp only [Within] at isUnique
        omega
      · simp only [Within] at isLink
        omega
      · simp only [EmbeddingForm.Holds, Within] at isMapped
        omega
  | nat64 =>
      simp only [EmbeddingForm.Holds, Within] at holds ⊢
      rintro (isLoopback | isZero | isUnique | isLink | ⟨isMapped, -⟩)
      · omega
      · omega
      · omega
      · omega
      · simp only [EmbeddingForm.Holds, Within] at isMapped
        omega
  | sixToFour =>
      simp only [EmbeddingForm.Holds, Within] at holds ⊢
      rintro (isLoopback | isZero | isUnique | isLink | ⟨isMapped, -⟩)
      · omega
      · omega
      · omega
      · omega
      · simp only [EmbeddingForm.Holds, Within] at isMapped
        omega

theorem missed_v6_iff (v6 : Ipv6Addr) :
    (HostMeaning.v6 v6).Missed ↔
      (HostMeaning.v6 v6).Reserved ∧ ¬ isPrivateV6 v6 = true := by
  constructor
  · rintro ⟨nonzero, form, notMapped, embeds⟩
    exact ⟨.inr (.inr (.inr (.inr ⟨form, embeds⟩))),
      not_private_of_embeds notMapped nonzero embeds⟩
  · rintro ⟨reserved, open_⟩
    rw [isPrivateV6_iff] at open_
    simp only [not_or] at open_
    obtain ⟨notLoopback, notZero, notUnique, notLink, notMapped⟩ := open_
    rcases reserved with l | z | u | k | ⟨form, embeds⟩
    · exact absurd l notLoopback
    · exact absurd z notZero
    · exact absurd u notUnique
    · exact absurd k notLink
    · refine ⟨fun zero => notZero (within_zero_iff.mpr zero), form, ?_, embeds⟩
      rintro rfl
      exact notMapped embeds

/-! ## The texts of hosts -/

theorem dropWhile_of_forall {bracket : Char} {text : List Char}
    (other : ∀ c ∈ text, c ≠ bracket) :
    text.dropWhile (· == bracket) = text := by
  cases text with
  | nil => rfl
  | cons c text =>
      rw [List.dropWhile_cons_of_neg]
      simpa using other c List.mem_cons_self

theorem trimBrackets_of_noBrackets {text : List Char}
    (noBrackets : ∀ c ∈ text, c ≠ '[' ∧ c ≠ ']') :
    trimBrackets text = text := by
  rw [trimBrackets, dropWhile_of_forall fun c mem => (noBrackets c mem).1,
    dropWhile_of_forall fun c mem => (noBrackets c (List.mem_reverse.mp mem)).2,
    List.reverse_reverse]

/-- A pair of brackets around a text without brackets is trimmed. -/
theorem trimBrackets_bracketed {text : List Char}
    (noBrackets : ∀ c ∈ text, c ≠ '[' ∧ c ≠ ']') :
    trimBrackets ('[' :: text ++ [']']) = text := by
  have front : ('[' :: text ++ [']']).dropWhile (· == '[') = text ++ [']'] := by
    rw [List.cons_append, List.dropWhile_cons_of_pos (by rfl)]
    refine dropWhile_of_forall (List.forall_mem_append.mpr
      ⟨fun c mem => (noBrackets c mem).1, ?_⟩)
    exact List.forall_mem_singleton.mpr (by decide)
  rw [trimBrackets, front, List.reverse_append, List.reverse_singleton,
    List.singleton_append, List.dropWhile_cons_of_pos (by rfl),
    dropWhile_of_forall fun c mem => (noBrackets c (List.mem_reverse.mp mem)).2,
    List.reverse_reverse]

/-- The characters of an address are no brackets. -/
theorem noBrackets_of_parse {text : List Char} {address : IpAddr}
    (parses : parseIpAddr text = some address) :
    ∀ c ∈ text, c ≠ '[' ∧ c ≠ ']' := by
  intro c mem
  have isAddressChar := isAddressChar_of_parse parses c mem
  constructor
  · rintro rfl
    revert isAddressChar
    decide
  · rintro rfl
    revert isAddressChar
    decide

/-- The check decides what a host stands for, except for what it misses. -/
theorem missed_iff {host : String} {meaning : HostMeaning}
    (denotes : Denotes host meaning) :
    meaning.Missed ↔ meaning.Reserved ∧ ¬ isPrivateHost host = true := by
  cases denotes with
  | @v4 _ address parses =>
      have decided : isPrivateHost host = isPrivateV4 address := by
        rw [isPrivateHost, trimBrackets_of_noBrackets
          (noBrackets_of_parse parses), parses]
      rw [decided, isPrivateV4_iff]
      exact (and_not_self_iff _).symm
  | @v6 text address parses =>
      have decided : isPrivateHost (String.ofList ('[' :: text ++ [']'])) =
          isPrivateV6 address := by
        rw [isPrivateHost, String.toList_ofList,
          trimBrackets_bracketed (noBrackets_of_parse parses), parses]
      rw [decided]
      exact missed_v6_iff address
  | name noBrackets noAddress =>
      have decided : isPrivateHost host = true ↔ host = "localhost" ∨
          host = "ip6-localhost" ∨ host = "ip6-loopback" := by
        rw [isPrivateHost, trimBrackets_of_noBrackets noBrackets, noAddress]
        simp only [Bool.or_eq_true, beq_iff_eq, or_assoc]
      rw [decided]
      constructor
      · rintro rfl
        exact ⟨.inr rfl, by decide⟩
      · rintro ⟨rfl | dotted, notNamed⟩
        · exact absurd (.inl rfl) notNamed
        · exact dotted

/-! ## What a fetch reaches -/

namespace HttpFetchTool

variable {tool : HttpFetchTool} {network : Network}

/-- A host that passes both checks. -/
def Admits (tool : HttpFetchTool) (host : String) : Prop :=
  tool.hostAllowed host = true ∧
    (isPrivateHost host = true → tool.internalOk host = true)

theorem admits_of_admit {parseUrl : String → Except String (Option String)}
    {args : JsonValue} {remainingNs maxBytes : Nat} {host : String}
    (admitted : tool.preflight parseUrl args remainingNs = .ok (host, maxBytes)) :
    tool.enabled = true ∧ tool.Admits host := by
  unfold preflight at admitted
  by_cases enabled : tool.enabled = true
  case neg => simp [enabled] at admitted
  refine ⟨enabled, ?_⟩
  rw [if_pos enabled] at admitted
  cases url : (args.field "url").bind JsonValue.asStr with
  | none => simp [url] at admitted
  | some text =>
      simp only [url] at admitted
      cases parsed : parseUrl text with
      | error e => simp [parsed] at admitted
      | ok found =>
          cases found with
          | none => simp [parsed] at admitted
          | some named =>
              simp only [parsed] at admitted
              split_ifs at admitted with allowed refused late
              obtain ⟨rfl, -⟩ := Prod.mk.inj (Except.ok.inj admitted)
              refine ⟨allowed, fun isPrivate => ?_⟩
              simpa [isPrivate] using refused

theorem admits_of_followsRedirect {previous : List String} {host : String}
    (follows : tool.followsRedirect previous host = true) :
    tool.Admits host ∧ previous.length < 3 := by
  unfold followsRedirect at follows
  split_ifs at follows with following many
  simp only [Bool.and_eq_true, Bool.not_eq_true', Bool.and_eq_false_iff,
    Bool.not_eq_false'] at follows
  refine ⟨⟨follows.1, fun isPrivate => ?_⟩, not_le.mp many⟩
  exact follows.2.resolve_left (by simp [isPrivate])

/-- Every host that is reached by redirects has passed the checks. -/
theorem admits_of_mem_reach {answers : Nat} {hosts : List String}
    (checked : ∀ host ∈ hosts, tool.Admits host) :
    ∀ host ∈ tool.reach network answers hosts, tool.Admits host := by
  induction answers generalizing hosts with
  | zero => exact checked
  | succ answers ih =>
      unfold reach
      cases network.redirect hosts with
      | none => exact checked
      | some target =>
          dsimp only
          split_ifs with follows
          · exact ih (List.forall_mem_append.mpr ⟨checked,
              List.forall_mem_singleton.mpr
                (admits_of_followsRedirect follows).1⟩)
          · exact checked

/-- Answers beyond the second redirect change nothing. -/
theorem reach_add {answers more : Nat} {hosts : List String}
    (enough : 3 ≤ hosts.length + answers) :
    tool.reach network (answers + more) hosts =
      tool.reach network answers hosts := by
  induction answers generalizing hosts with
  | zero =>
      cases more with
      | zero => rfl
      | succ more =>
          rw [Nat.zero_add, reach, reach]
          cases network.redirect hosts with
          | none => rfl
          | some target =>
              dsimp only
              rw [if_neg]
              intro follows
              have few := (admits_of_followsRedirect follows).2
              omega
  | succ answers ih =>
      rw [Nat.add_right_comm, reach, reach]
      cases network.redirect hosts with
      | none => rfl
      | some target =>
          dsimp only
          rw [ih (by rw [List.length_append, List.length_singleton]; omega)]

/-- A fetch reaches hosts that have passed the checks. -/
theorem admits_of_mem_invoke {parseUrl : String → Except String (Option String)}
    {args : JsonValue} {remainingNs : Nat} {host : String}
    (reached : host ∈ (tool.invoke parseUrl args remainingNs network).1) :
    tool.enabled = true ∧ tool.Admits host := by
  unfold invoke at reached
  cases admitted : tool.preflight parseUrl args remainingNs with
  | error e => simp [admitted] at reached
  | ok request =>
      obtain ⟨first, maxBytes⟩ := request
      obtain ⟨enabled, admits⟩ := admits_of_admit admitted
      have mem : host ∈ tool.reach network 3 [first] := by
        simp only [admitted] at reached
        cases response : network.response (tool.reach network 3 [first]) with
        | ok response' => simpa [response] using reached
        | error e => cases e <;> simpa [response] using reached
      exact ⟨enabled, admits_of_mem_reach
        (List.forall_mem_singleton.mpr admits) host mem⟩

/-- Without a pattern for `.internal` names, no private host passes. -/
theorem internalOk_eq_false
    (noInternal : ∀ pat ∈ tool.allowlist, hasSuffix pat ".internal" = false)
    (host : String) : tool.internalOk host = false := by
  rw [internalOk, List.any_eq_false]
  intro pat mem
  simp [noInternal pat mem]

/-- Every fetch, and every redirect it follows, reaches the host only if a
pattern matches it and it is none of the addresses and names that must not be
reached. -/
def ReachesOnlyPermitted (tool : HttpFetchTool) (host : String)
    (meaning : HostMeaning) : Prop :=
  ∀ parseUrl args remainingNs network,
    host ∈ (tool.invoke parseUrl args remainingNs network).1 →
      tool.hostAllowed host = true ∧ ¬ meaning.Reserved

/-- The sandbox holds for a host exactly when the tool is disabled, no pattern
matches the host, or it is not one of the hosts that the checks miss. -/
theorem reachesOnlyPermitted_iff (tool : HttpFetchTool)
    (noInternal : ∀ pat ∈ tool.allowlist, hasSuffix pat ".internal" = false)
    {host : String} {meaning : HostMeaning} (denotes : Denotes host meaning) :
    tool.ReachesOnlyPermitted host meaning ↔
      ¬ (tool.enabled = true ∧ tool.hostAllowed host = true ∧
        meaning.Missed) := by
  have notInternal := internalOk_eq_false noInternal host
  constructor
  · rintro sandboxed ⟨enabled, allowed, missed⟩
    obtain ⟨reserved, notPrivate⟩ := (missed_iff denotes).mp missed
    have reached : host ∈ (tool.invoke (fun _ => .ok (some host))
        (.object [("url", .string "")]) 1
        { redirect := fun _ => none, response := fun _ => .error .timeout }).1 := by
      have admitted : tool.preflight (fun _ => .ok (some host))
          (.object [("url", .string "")]) 1 = .ok (host, tool.maxBytes) := by
        simp [preflight, enabled, allowed, notPrivate, JsonValue.field,
          JsonValue.asStr, List.lookup_cons]
      simp [invoke, admitted, reach]
    exact (sandboxed _ _ _ _ reached).2 reserved
  · intro condition parseUrl args remainingNs network reached
    obtain ⟨enabled, allowed, lifted⟩ := admits_of_mem_invoke reached
    refine ⟨allowed, fun reserved => condition ⟨enabled, allowed, ?_⟩⟩
    refine (missed_iff denotes).mpr ⟨reserved, fun isPrivate => ?_⟩
    rw [lifted isPrivate] at notInternal
    cases notInternal

/-! ## An embedded loopback address -/

/-- A tool that may fetch from the loopback address in its compatible form, as
a URL parser writes it, and from a public address. -/
def looseTool : HttpFetchTool where
  allowlist := ["[::7f00:1]", "8.8.8.8"]
  maxBytes := 1024
  followRedirects := true
  enabled := true

def compatibleLoopback : Ipv6Addr :=
  ⟨0, 0, 0, 0, 0, 0, 0x7f00, 1⟩

theorem denotes_compatibleLoopback :
    Denotes "[::7f00:1]" (.v6 compatibleLoopback) :=
  @Denotes.v6 "::7f00:1".toList _ rfl

/-- The host is fetched although it embeds `127.0.0.1`. -/
theorem looseTool_reaches_loopback :
    Denotes "[::7f00:1]" (.v6 compatibleLoopback) ∧
      (HostMeaning.v6 compatibleLoopback).Reserved ∧
      "[::7f00:1]" ∈ (looseTool.invoke (fun _ => .ok (some "[::7f00:1]"))
        (.object [("url", .string "http://[::127.0.0.1]/")]) 1000
        { redirect := fun _ => none
          response := fun _ => .error .timeout }).1 := by
  refine ⟨denotes_compatibleLoopback, ?_, ?_⟩
  · exact .inr (.inr (.inr (.inr ⟨.compatible, by decide, by decide⟩)))
  · decide

theorem looseTool_sandboxes_public :
    Denotes "8.8.8.8" (.v4 ⟨8, 8, 8, 8⟩) ∧
      looseTool.ReachesOnlyPermitted "8.8.8.8" (.v4 ⟨8, 8, 8, 8⟩) :=
  have denotes : Denotes "8.8.8.8" (.v4 ⟨8, 8, 8, 8⟩) := .v4 rfl
  ⟨denotes, (reachesOnlyPermitted_iff looseTool (by decide) denotes).mpr
    (fun missed => missed.2.2)⟩

end HttpFetchTool

end TorchInference
