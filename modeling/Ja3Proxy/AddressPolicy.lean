import Mathlib.Data.List.DropRight
import Mathlib.Data.Seq.Basic
import Ja3Proxy.ExceptRules
import Ja3Proxy.TransportErrors

/-! The address policy of `src/validation.rs` and the resolver of `src/network.rs` that enforces
it on every connection. A DNS answer is a sequence that need not end. -/
namespace AddressPolicy

open ExceptRules TransportErrors

structure Ipv4Addr where
  a : BitVec 8
  b : BitVec 8
  c : BitVec 8
  d : BitVec 8
  deriving DecidableEq, Repr

structure Ipv6Addr where
  s0 : BitVec 16
  s1 : BitVec 16
  s2 : BitVec 16
  s3 : BitVec 16
  s4 : BitVec 16
  s5 : BitVec 16
  s6 : BitVec 16
  s7 : BitVec 16
  deriving DecidableEq, Repr

inductive IpAddr where
  | v4 (ip : Ipv4Addr)
  | v6 (ip : Ipv6Addr)
  deriving DecidableEq, Repr

structure SocketAddr where
  ip : IpAddr
  port : ℕ
  deriving DecidableEq, Repr

def Ipv4Addr.high (ip : Ipv4Addr) : BitVec 16 := ip.a ++ ip.b

def Ipv4Addr.low (ip : Ipv4Addr) : BitVec 16 := ip.c ++ ip.d

def Ipv6Addr.toIpv4Mapped (ip : Ipv6Addr) : Option Ipv4Addr :=
  if ip.s0 = 0#16 ∧ ip.s1 = 0#16 ∧ ip.s2 = 0#16 ∧ ip.s3 = 0#16 ∧ ip.s4 = 0#16 ∧
      ip.s5 = 0xffff#16 then
    some ⟨ip.s6.extractLsb' 8 8, ip.s6.extractLsb' 0 8, ip.s7.extractLsb' 8 8,
      ip.s7.extractLsb' 0 8⟩
  else none

def publicV4 (ip : Ipv4Addr) : Bool :=
  !(ip.a == 0#8
    || ip.a == 10#8
    || ip.a == 127#8
    || 224#8 ≤ ip.a
    || (ip.a == 100#8 && (64#8 ≤ ip.b && ip.b ≤ 127#8))
    || (ip.a == 169#8 && ip.b == 254#8)
    || (ip.a == 172#8 && (16#8 ≤ ip.b && ip.b ≤ 31#8))
    || (ip.a == 192#8
      && ((ip.b == 0#8 && (ip.c == 0#8 || ip.c == 2#8)) || (ip.b == 88#8 && ip.c == 99#8)
        || ip.b == 168#8))
    || (ip.a == 198#8 && (ip.b == 18#8 || ip.b == 19#8 || (ip.b == 51#8 && ip.c == 100#8)))
    || (ip.a == 203#8 && ip.b == 0#8 && ip.c == 113#8))

def publicIp : IpAddr → Bool
  | .v4 ip => publicV4 ip
  | .v6 ip =>
    match ip.toIpv4Mapped with
    | some v4 => publicV4 v4
    | none =>
      (ip.s0 &&& 0xe000#16) == 0x2000#16
        && !(ip.s0 == 0x2001#16 && (ip.s1 < 0x0200#16 || ip.s1 == 0x0db8#16))
        && ip.s0 != 0x2002#16
        && !(ip.s0 == 0x3fff#16 && ip.s1 < 0x1000#16)

def digitValue (radix : ℕ) (c : Char) : Option ℕ :=
  let value :=
    if '0' ≤ c ∧ c ≤ '9' then some (c.toNat - '0'.toNat)
    else if 'a' ≤ c.toLower ∧ c.toLower ≤ 'z' then some (c.toLower.toNat - 'a'.toNat + 10)
    else none
  value.filter (Nat.blt · radix)

/-- The digits are read while there are any; more than `maxDigits` of them, or a value from
`bound` on, is an error. -/
def readNumber (radix maxDigits bound : ℕ) (allowZeroPrefix : Bool) (text : List Char) :
    Option (ℕ × List Char) :=
  let digits := text.takeWhile fun c => (digitValue radix c).isSome
  let value := digits.foldl (fun n c => n * radix + (digitValue radix c).getD 0) 0
  if digits.isEmpty || Nat.blt maxDigits digits.length || Nat.ble bound value
      || (!allowZeroPrefix && digits.head? == some '0' && Nat.blt 1 digits.length) then none
  else some (value, text.drop digits.length)

def readSeparator {α : Type} (separator : Char) (index : ℕ)
    (inner : List Char → Option (α × List Char)) (text : List Char) : Option (α × List Char) :=
  if index = 0 then inner text
  else
    match text with
    | c :: rest => if c = separator then inner rest else none
    | [] => none

def readOctet (index : ℕ) (text : List Char) : Option (BitVec 8 × List Char) :=
  (readSeparator '.' index (readNumber 10 3 256 false) text).map fun (n, rest) =>
    (BitVec.ofNat 8 n, rest)

def readIpv4Addr (text : List Char) : Option (Ipv4Addr × List Char) :=
  (readOctet 0 text).bind fun (a, text) =>
  (readOctet 1 text).bind fun (b, text) =>
  (readOctet 2 text).bind fun (c, text) =>
  (readOctet 3 text).map fun (d, text) => (⟨a, b, c, d⟩, text)

def readGroups : ℕ → ℕ → List Char → List (BitVec 16) × Bool × List Char
  | 0, _, text => ([], false, text)
  | room + 1, index, text =>
    match if room = 0 then none else readSeparator ':' index readIpv4Addr text with
    | some (ip, rest) => ([ip.high, ip.low], true, rest)
    | none =>
      match readSeparator ':' index (readNumber 16 4 65536 true) text with
      | none => ([], false, text)
      | some (n, rest) =>
        let (groups, ipv4, rest) := readGroups room (index + 1) rest
        (BitVec.ofNat 16 n :: groups, ipv4, rest)

def ofSegments (s : List (BitVec 16)) : Ipv6Addr :=
  ⟨s.getD 0 0, s.getD 1 0, s.getD 2 0, s.getD 3 0, s.getD 4 0, s.getD 5 0, s.getD 6 0, s.getD 7 0⟩

def readIpv6Addr (text : List Char) : Option (Ipv6Addr × List Char) :=
  let (head, ipv4, rest) := readGroups 8 0 text
  if head.length = 8 then some (ofSegments head, rest)
  else if ipv4 then none
  else
    match rest with
    | ':' :: ':' :: rest =>
      let (tail, _, rest) := readGroups (8 - (head.length + 1)) 0 rest
      some (ofSegments (head ++ List.replicate (8 - head.length - tail.length) 0 ++ tail), rest)
    | _ => none

def parseIp (text : List Char) : Option IpAddr :=
  match readIpv4Addr text with
  | some (ip, rest) => if rest.isEmpty then some (.v4 ip) else none
  | none =>
    match readIpv6Addr text with
    | some (ip, rest) => if rest.isEmpty then some (.v6 ip) else none
    | none => none

def eqIgnoreAsciiCase (x y : List Char) : Bool := x.map Char.toLower == y.map Char.toLower

def blockedNames : List String :=
  ["localhost.localdomain", "ip6-localhost", "ip6-loopback", "metadata.google.internal",
    "metadata.google.com", "instance-data"]

def blockedHostname (host : List Char) : Bool :=
  let host := host.rdropWhile (· == '.')
  eqIgnoreAsciiCase host "localhost".toList
    || ".localhost".toList.isSuffixOf (host.map Char.toLower)
    || blockedNames.any fun blocked => eqIgnoreAsciiCase host blocked.toList

structure NetworkPolicy where
  allowPrivateIps : Bool

def maxDnsAddresses : ℕ := 64

namespace NetworkPolicy

variable (policy : NetworkPolicy)

def checkHost (host : List Char) : Except TransportError Unit :=
  let host := (host.dropWhile (· == '[')).rdropWhile (· == ']')
  rejectIf (!policy.allowPrivateIps
    && (blockedHostname host || (parseIp host).any fun ip => !publicIp ip)) (.fromCode .ssrfBlocked)

def checkAddresses (addresses : List SocketAddr) : Except TransportError Unit :=
  (rejectIf (addresses.isEmpty || Nat.blt maxDnsAddresses addresses.length)
    (.fromCode .dnsError)).bind fun _ =>
  rejectIf (!policy.allowPrivateIps && addresses.any fun address => !publicIp address.ip)
    (.fromCode .ssrfBlocked)

end NetworkPolicy

def ensureOpen (closed : Bool) : Except TransportError Unit :=
  rejectIf closed (.fromCode .contextNotFound)

/-- The addresses that `resolve` checks; `none` is an upstream that fails. -/
def lookup (upstream : String → Option (Stream'.Seq SocketAddr)) (name : String) :
    Except TransportError (List SocketAddr) :=
  match parseIp name.toList with
  | some ip => .ok [⟨ip, 0⟩]
  | none =>
    match upstream name with
    | none => .error (.fromCode .dnsError)
    | some answer => .ok (answer.take (maxDnsAddresses + 1))

/-- `GuardedResolver::resolve`. The flag of the client is read before the upstream is asked and
again after its answer. -/
def resolve (policy : NetworkPolicy) (upstream : String → Option (Stream'.Seq SocketAddr))
    (closedBefore closedAfter : Bool) (name : String) : Except TransportError (List SocketAddr) :=
  (ensureOpen closedBefore).bind fun _ =>
  (policy.checkHost name.toList).bind fun _ =>
  (lookup upstream name).bind fun addresses =>
  (policy.checkAddresses addresses).bind fun _ =>
  (ensureOpen closedAfter).bind fun _ => .ok addresses

inductive Embeds (ip : Ipv4Addr) : Ipv6Addr → Prop where
  | mapped : Embeds ip ⟨0#16, 0#16, 0#16, 0#16, 0#16, 0xffff#16, ip.high, ip.low⟩
  | compatible : Embeds ip ⟨0#16, 0#16, 0#16, 0#16, 0#16, 0#16, ip.high, ip.low⟩
  | nat64 : Embeds ip ⟨0x64#16, 0xff9b#16, 0#16, 0#16, 0#16, 0#16, ip.high, ip.low⟩
  | localNat64 (s3 s4 s5 s6 s7 : BitVec 16) :
    Embeds ip ⟨0x64#16, 0xff9b#16, 1#16, s3, s4, s5, s6, s7⟩
  | sixToFour (s3 s4 s5 s6 s7 : BitVec 16) :
    Embeds ip ⟨0x2002#16, ip.high, ip.low, s3, s4, s5, s6, s7⟩
  | teredo (s2 s3 s4 s5 s6 s7 : BitVec 16) : Embeds ip ⟨0x2001#16, 0#16, s2, s3, s4, s5, s6, s7⟩

theorem extract_high (x y : BitVec 8) : (x ++ y : BitVec 16).extractLsb' 8 8 = x := by
  rw [BitVec.extractLsb'_append_eq_of_le (by decide)]
  simp

theorem extract_low (x y : BitVec 8) : (x ++ y : BitVec 16).extractLsb' 0 8 = y := by
  rw [BitVec.extractLsb'_append_eq_of_add_le (by decide)]
  simp

theorem mapped_eq (ip : Ipv4Addr) :
    (⟨0#16, 0#16, 0#16, 0#16, 0#16, 0xffff#16, ip.high, ip.low⟩ : Ipv6Addr).toIpv4Mapped =
    some ip := by
  simp [Ipv6Addr.toIpv4Mapped, Ipv4Addr.high, Ipv4Addr.low, extract_high, extract_low]

section Segments

variable {s0 s1 s2 s3 s4 s5 s6 s7 : BitVec 16}

theorem not_mapped (h : s0 ≠ 0#16 ∨ s5 ≠ 0xffff#16) :
    (⟨s0, s1, s2, s3, s4, s5, s6, s7⟩ : Ipv6Addr).toIpv4Mapped = none := by
  rw [Ipv6Addr.toIpv4Mapped, if_neg]
  rintro ⟨h0, -, -, -, -, h5⟩
  exact h.elim (absurd h0) (absurd h5)

/-- An address outside `2000::/3`, a 6to4 address or a Teredo address is not public. -/
theorem reserved_not_public (h : s0 ≠ 0#16 ∨ s5 ≠ 0xffff#16)
    (hreserved : (s0 &&& 0xe000#16) ≠ 0x2000#16 ∨ s0 = 0x2002#16 ∨
      s0 = 0x2001#16 ∧ s1 < 0x0200#16) :
    publicIp (.v6 ⟨s0, s1, s2, s3, s4, s5, s6, s7⟩) = false := by
  rw [publicIp, not_mapped h]
  rcases hreserved with houtside | htunnel | ⟨hteredo, hlow⟩
  · have houtside : ((s0 &&& 0xe000#16) == 0x2000#16) = false := beq_false_of_ne houtside
    simp only [houtside, Bool.false_and]
  · have htunnel : (s0 != 0x2002#16) = false := by simp [htunnel]
    simp only [htunnel, Bool.and_false, Bool.false_and]
  · have hlow : decide (s1 < 0x0200#16) = true := decide_eq_true hlow
    have hteredo : (s0 == 0x2001#16) = true := beq_iff_eq.mpr hteredo
    simp only [hteredo, hlow, Bool.true_or, Bool.and_self, Bool.not_true, Bool.and_false,
      Bool.false_and]

end Segments

theorem embedded_private {v4 : Ipv4Addr} {v6 : Ipv6Addr} (h : publicIp (.v4 v4) = false)
    (he : Embeds v4 v6) : publicIp (.v6 v6) = false := by
  cases he with
  | mapped =>
    rw [publicIp, mapped_eq]
    exact h
  | compatible => exact reserved_not_public (.inr (by decide)) (.inl (by decide))
  | nat64 => exact reserved_not_public (.inl (by decide)) (.inl (by decide))
  | localNat64 s3 s4 s5 s6 s7 => exact reserved_not_public (.inl (by decide)) (.inl (by decide))
  | sixToFour s3 s4 s5 s6 s7 => exact reserved_not_public (.inl (by decide)) (.inr (.inl rfl))
  | teredo s2 s3 s4 s5 s6 s7 =>
    exact reserved_not_public (.inl (by decide)) (.inr (.inr ⟨rfl, by decide⟩))

def BlockedName (name : List Char) : Prop :=
  ∃ stem dots, name = stem ++ List.replicate dots '.' ∧
    ((∃ blocked ∈ "localhost" :: blockedNames, stem.map Char.toLower = blocked.toList) ∨
      ∃ sub, stem.map Char.toLower = sub ++ ".localhost".toList)

structure Edges (q : List Char) : Prop where
  first : ∃ c, q.head? = some c ∧ (c == '[') = false
  last : ∃ c, q.getLast? = some c ∧ (c == ']') = false ∧ (c == '.') = false

theorem edges_of_blocked {q : List Char} {blocked : String}
    (hmem : blocked ∈ ".localhost" :: "localhost" :: blockedNames)
    (h : q.map Char.toLower = blocked.toList) : Edges q := by
  have hedges : ∀ b ∈ ".localhost" :: "localhost" :: blockedNames,
      b.toList ≠ [] ∧ b.toList.head? ≠ some '[' ∧ b.toList.getLast? ≠ some ']' ∧
        b.toList.getLast? ≠ some '.' := by
    decide +kernel
  obtain ⟨hne, hfirst, hbracket, hdot⟩ := hedges blocked hmem
  rw [← h] at hne hfirst hbracket hdot
  rw [List.head?_map] at hfirst
  rw [List.getLast?_map] at hbracket hdot
  have hq : q ≠ [] := by
    rintro rfl
    exact hne rfl
  constructor
  · refine ⟨q.head hq, List.head?_eq_some_head hq, beq_false_of_ne ?_⟩
    intro heq
    rw [List.head?_eq_some_head hq, heq] at hfirst
    exact hfirst rfl
  · refine ⟨q.getLast hq, List.getLast?_eq_some_getLast hq, beq_false_of_ne ?_, beq_false_of_ne ?_⟩
    · intro heq
      rw [List.getLast?_eq_some_getLast hq, heq] at hbracket
      exact hbracket rfl
    · intro heq
      rw [List.getLast?_eq_some_getLast hq, heq] at hdot
      exact hdot rfl

theorem dropWhile_append_head {p : Char → Bool} {xs ys : List Char} {c : Char}
    (hc : ys.head? = some c) (hp : p c = false) :
    (xs ++ ys).dropWhile p = xs.dropWhile p ++ ys := by
  induction xs with
  | nil =>
    cases ys with
    | nil => rfl
    | cons y ys =>
      cases hc
      simp [hp]
  | cons x xs ih =>
    cases hx : p x with
    | true => simpa [hx] using ih
    | false => simp [hx]

theorem rdropWhile_last {p : Char → Bool} {xs : List Char} {c : Char}
    (hc : xs.getLast? = some c) (hp : p c = false) : xs.rdropWhile p = xs := by
  obtain ⟨ys, rfl⟩ := List.getLast?_eq_some_iff.mp hc
  exact List.rdropWhile_concat_neg p ys c (by simp [hp])

theorem rdropWhile_dots (stem : List Char) (dots : ℕ) :
    (stem ++ List.replicate dots '.').rdropWhile (· == '.') = stem.rdropWhile (· == '.') := by
  induction dots with
  | zero => simp
  | succ dots ih =>
    rw [List.replicate_succ', ← List.append_assoc, List.rdropWhile_concat_pos _ _ _ (by simp)]
    exact ih

/-- What is left of a name for the comparison in `blocked_hostname`. -/
theorem trimmed_host {p q : List Char} (h : Edges q) (dots : ℕ) :
    (((p ++ q ++ List.replicate dots '.').dropWhile (· == '[')).rdropWhile (· == ']')).rdropWhile
      (· == '.') = p.dropWhile (· == '[') ++ q := by
  obtain ⟨first, hfirst, hopen⟩ := h.first
  obtain ⟨last, hlast, hclose, hdot⟩ := h.last
  have hstart : (p ++ q ++ List.replicate dots '.').dropWhile (· == '[') =
      p.dropWhile (· == '[') ++ q ++ List.replicate dots '.' := by
    rw [List.append_assoc, dropWhile_append_head (c := first) (by simp [hfirst]) hopen,
      List.append_assoc]
  have hend : ∃ c, (p.dropWhile (· == '[') ++ q ++ List.replicate dots '.').getLast? = some c ∧
      (c == ']') = false := by
    cases dots with
    | zero => exact ⟨last, by simp [hlast], hclose⟩
    | succ dots => exact ⟨'.', by simp [List.replicate_succ'], by decide⟩
  obtain ⟨c, hc, hnot⟩ := hend
  rw [hstart, rdropWhile_last hc hnot, rdropWhile_dots]
  exact rdropWhile_last (c := last) (by simp [hlast]) hdot

theorem blockedHostname_of_name {name : List Char} (h : BlockedName name) :
    blockedHostname ((name.dropWhile (· == '[')).rdropWhile (· == ']')) = true := by
  obtain ⟨stem, dots, rfl, ⟨blocked, hmem, hstem⟩ | ⟨sub, hstem⟩⟩ := h
  · have htrim := trimmed_host (p := []) (edges_of_blocked (List.mem_cons_of_mem _ hmem) hstem) dots
    simp only [List.nil_append, List.dropWhile_nil] at htrim
    have hlisted : ∀ b ∈ "localhost" :: blockedNames,
        (b.toList == "localhost".toList.map Char.toLower
          || ".localhost".toList.isSuffixOf b.toList
          || blockedNames.any fun blocked => b.toList == blocked.toList.map Char.toLower) =
            true := by
      decide +kernel
    simp only [blockedHostname, htrim, eqIgnoreAsciiCase, hstem]
    exact hlisted blocked hmem
  · obtain ⟨p, q, rfl, hp, hq⟩ := List.map_eq_append_iff.mp hstem
    have htrim := trimmed_host (p := p) (edges_of_blocked List.mem_cons_self hq) dots
    have hsuffix : ".localhost".toList.isSuffixOf
        ((p.dropWhile (· == '[')).map Char.toLower ++ ".localhost".toList) = true :=
      List.isSuffixOf_iff_suffix.mpr (List.suffix_append _ _)
    simp only [blockedHostname, htrim, List.map_append, hq]
    rw [hsuffix, Bool.or_true, Bool.true_or]

/-- An answer that does not fill the window is the whole answer. -/
theorem ofList_take {α : Type} {answer : Stream'.Seq α} {n : ℕ}
    (h : (answer.take (n + 1)).length ≤ n) : Stream'.Seq.ofList (answer.take (n + 1)) = answer := by
  have hend : answer.get? (answer.take (n + 1)).length = none := by
    have hover := List.getElem?_eq_none (Nat.le_refl (answer.take (n + 1)).length)
    rwa [Stream'.Seq.getElem?_take, if_pos (Nat.lt_succ_of_le h)] at hover
  apply Stream'.Seq.ext
  intro k
  rw [Stream'.Seq.ofList_get?, Stream'.Seq.getElem?_take]
  by_cases hk : k < n + 1
  · rw [if_pos hk]
  · rw [if_neg hk]
    exact (Stream'.Seq.terminated_stable answer (by omega) hend).symm

def answer (upstream : String → Option (Stream'.Seq SocketAddr)) (name : String) :
    Option (Stream'.Seq SocketAddr) :=
  match parseIp name.toList with
  | some ip => some (Stream'.Seq.ofList [⟨ip, 0⟩])
  | none => upstream name

theorem answer_of_lookup {upstream : String → Option (Stream'.Seq SocketAddr)} {name : String}
    {addresses : List SocketAddr} (h : lookup upstream name = .ok addresses)
    (hcount : addresses.length ≤ maxDnsAddresses) :
    answer upstream name = some (Stream'.Seq.ofList addresses) := by
  unfold lookup at h
  unfold answer
  cases hname : parseIp name.toList with
  | some ip =>
    rw [hname] at h
    cases h
    rfl
  | none =>
    rw [hname] at h
    cases hreply : upstream name with
    | none =>
      rw [hreply] at h
      cases h
    | some reply =>
      rw [hreply] at h
      cases h
      exact congrArg some (ofList_take hcount).symm

theorem checkAddresses_ok {addresses : List SocketAddr}
    (h : (NetworkPolicy.mk false).checkAddresses addresses = .ok ()) :
    (1 ≤ addresses.length ∧ addresses.length ≤ 64) ∧
      ∀ address ∈ addresses, publicIp address.ip = true := by
  simp only [NetworkPolicy.checkAddresses, bind_ok, rejectIf_ok, Bool.or_eq_false_iff,
    Bool.not_false, Bool.true_and, List.any_eq_false, Bool.not_eq_true', Bool.not_eq_false] at h
  obtain ⟨_, ⟨hsome, hcount⟩, hpublic⟩ := h
  refine ⟨⟨?_, ?_⟩, hpublic⟩
  · exact List.length_pos_iff.mpr (List.isEmpty_eq_false_iff.mp hsome)
  · have hnot : ¬ maxDnsAddresses < addresses.length := by
      rw [← Nat.blt_eq, hcount]
      exact Bool.false_ne_true
    exact Nat.not_lt.mp hnot

theorem checkHost_ok {host : List Char} (h : (NetworkPolicy.mk false).checkHost host = .ok ()) :
    ¬ BlockedName host ∧
      ∀ ip, parseIp ((host.dropWhile (· == '[')).rdropWhile (· == ']')) = some ip →
        publicIp ip = true := by
  simp only [NetworkPolicy.checkHost, rejectIf_ok, Bool.not_false, Bool.true_and,
    Bool.or_eq_false_iff] at h
  constructor
  · intro hblocked
    rw [blockedHostname_of_name hblocked] at h
    cases h.1
  · intro ip hip
    rw [hip] at h
    simpa using h.2

/-- A result of the resolver: the complete answer, all of it public, for a name that is allowed. -/
structure Guarded (upstream : String → Option (Stream'.Seq SocketAddr)) (name : String)
    (addresses : List SocketAddr) : Prop where
  complete : answer upstream name = some (Stream'.Seq.ofList addresses)
  count : 1 ≤ addresses.length ∧ addresses.length ≤ 64
  isPublic : ∀ address ∈ addresses, publicIp address.ip = true
  allowed : ¬ BlockedName name.toList
  literal : ∀ ip, parseIp name.toList = some ip → publicIp ip = true
  bracketed : ∀ ip, parseIp ((name.toList.dropWhile (· == '[')).rdropWhile (· == ']')) = some ip →
    publicIp ip = true

theorem resolve_guarded {upstream : String → Option (Stream'.Seq SocketAddr)}
    {closedBefore closedAfter : Bool} {name : String} {addresses : List SocketAddr}
    (h : resolve ⟨false⟩ upstream closedBefore closedAfter name = .ok addresses) :
    Guarded upstream name addresses := by
  simp only [resolve, bind_ok] at h
  obtain ⟨_, _, _, hhost, addresses', hlookup, _, hcheck, _, _, hsame⟩ := h
  cases hsame
  obtain ⟨hname, hbracketed⟩ := checkHost_ok hhost
  obtain ⟨hcount, hpublic⟩ := checkAddresses_ok hcheck
  refine ⟨answer_of_lookup hlookup hcount.2, hcount, hpublic, hname, ?_, hbracketed⟩
  intro ip hip
  unfold lookup at hlookup
  rw [hip] at hlookup
  cases hlookup
  exact hpublic ⟨ip, 0⟩ List.mem_cons_self

/-- With private addresses disallowed. -/
theorem ssrf_guard :
    (∀ upstream closedBefore closedAfter name addresses,
      resolve ⟨false⟩ upstream closedBefore closedAfter name = .ok addresses →
        Guarded upstream name addresses) ∧
      ∀ v4 v6, publicIp (.v4 v4) = false → Embeds v4 v6 → publicIp (.v6 v6) = false :=
  ⟨fun _ _ _ _ _ h => resolve_guarded h, fun _ _ h he => embedded_private h he⟩

/-- A name with a single public address. -/
theorem ssrf_guard_public :
    Guarded (fun _ => some (Stream'.Seq.ofList [⟨.v4 ⟨8#8, 8#8, 8#8, 8#8⟩, 443⟩])) "example.com"
        [⟨.v4 ⟨8#8, 8#8, 8#8, 8#8⟩, 443⟩] ∧
      publicIp (.v6 ⟨0x2002#16, 0x0a00#16, 0x0001#16, 0#16, 0#16, 0#16, 0#16, 0#16⟩) = false := by
  refine ⟨ssrf_guard.1 _ false false _ _ (by decide +kernel), ?_⟩
  exact ssrf_guard.2 ⟨10#8, 0#8, 0#8, 1#8⟩ _ (by decide) (.sixToFour 0#16 0#16 0#16 0#16 0#16)

end AddressPolicy
