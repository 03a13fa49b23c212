import MbTools.Lib.Decimal
import Mathlib.Data.List.Sort

/-! # The addresses of a host

Which addresses a host advertises and in which order, and which of the addresses of a peer it
connects to.
-/

namespace MbTools.Netaddr

/-- `IPv4Address` -/
structure IPv4 where
  a : UInt8
  b : UInt8
  c : UInt8
  d : UInt8
  deriving DecidableEq, Repr

namespace IPv4

def octets (ip : IPv4) : List UInt8 := [ip.a, ip.b, ip.c, ip.d]

def bits (ip : IPv4) : BitVec 32 :=
  ip.a.toBitVec ++ ip.b.toBitVec ++ ip.c.toBitVec ++ ip.d.toBitVec

/-- `str(ip)` -/
def text (ip : IPv4) : String :=
  String.ofList (['.'].intercalate (ip.octets.map fun o => Nat.toDigits 10 o.toNat))

/-- `_parse_octet` -/
def parseOctet (s : List Char) : Option UInt8 :=
  if !s.isEmpty && s.all Char.isDigit && s.length ≤ 3 && (s == ['0'] || s.head? != some '0') &&
      Nat.ofDigitChars 10 s 0 ≤ 255 then
    some (UInt8.ofNat (Nat.ofDigitChars 10 s 0))
  else none

/-- `IPv4Address(s)` -/
def parse (s : String) : Option IPv4 :=
  match s.toList.splitOn '.' with
  | [a, b, c, d] =>
    (parseOctet a).bind fun a => (parseOctet b).bind fun b => (parseOctet c).bind fun c =>
      (parseOctet d).map fun d => ⟨a, b, c, d⟩
  | _ => none

variable (ip : IPv4)

theorem isDigit_of_mem_toDigits {n : ℕ} {c : Char} (h : c ∈ Nat.toDigits 10 n) :
    c.isDigit = true :=
  Nat.isDigit_of_mem_toDigits (by decide) (by decide) h

theorem head?_toDigits (n : ℕ) : Nat.toDigits 10 n = ['0'] ∨
    (Nat.toDigits 10 n).head? ≠ some '0' := by
  induction n using Nat.strongRecOn with
  | ind n ih =>
    by_cases hn : n < 10
    · rw [Nat.toDigits_of_lt_base hn]
      by_cases hzero : n.digitChar = '0'
      · exact Or.inl (by rw [hzero])
      · exact Or.inr fun h => hzero (Option.some.inj h)
    · rw [Nat.toDigits_of_base_le (by decide) (by omega)]
      right
      rcases ih (n / 10) (by omega) with h0 | h0
      · have hdiv : n / 10 = 0 := by
          rw [← Nat.ofDigitChars_ten_toDigits (n := n / 10), h0]
          decide
        omega
      · rwa [List.head?_append_of_ne_nil _ Nat.toDigits_ne_nil]

theorem parseOctet_toDigits (o : UInt8) : parseOctet (Nat.toDigits 10 o.toNat) = some o := by
  have hlt := o.toNat_lt
  have hlen : (Nat.toDigits 10 o.toNat).length ≤ 3 :=
    (Nat.length_toDigits_le_iff (by decide) (by decide)).mpr (by omega)
  have hdigits : (Nat.toDigits 10 o.toNat).all Char.isDigit = true :=
    List.all_eq_true.mpr fun c hc => isDigit_of_mem_toDigits hc
  rw [parseOctet, Nat.ofDigitChars_ten_toDigits, if_pos, UInt8.ofNat_toNat]
  simp only [Bool.and_eq_true, Bool.or_eq_true, Bool.not_eq_true', List.isEmpty_eq_false_iff,
    decide_eq_true_eq, beq_iff_eq, bne_iff_ne]
  exact ⟨⟨⟨⟨Nat.toDigits_ne_nil, hdigits⟩, hlen⟩, head?_toDigits o.toNat⟩, by omega⟩

theorem mem_text {c : Char} (h : c ∈ ip.text.toList) : c.isDigit = true ∨ c = '.' := by
  rw [text, String.toList_ofList] at h
  simp only [octets, List.map_cons, List.map_nil, List.intercalate, List.intersperse,
    List.flatten_cons, List.flatten_nil, List.mem_append, List.mem_singleton,
    List.not_mem_nil, or_false] at h
  rcases h with h | h | h | h | h | h | h
  · exact Or.inl (isDigit_of_mem_toDigits h)
  · exact Or.inr h
  · exact Or.inl (isDigit_of_mem_toDigits h)
  · exact Or.inr h
  · exact Or.inl (isDigit_of_mem_toDigits h)
  · exact Or.inr h
  · exact Or.inl (isDigit_of_mem_toDigits h)

/-- `IPv4Address(str(ip))` -/
theorem parse_text : parse ip.text = some ip := by
  have hdot : ∀ l ∈ ip.octets.map (fun o => Nat.toDigits 10 o.toNat), '.' ∉ l := by
    intro l hl hmem
    obtain ⟨o, -, rfl⟩ := List.mem_map.mp hl
    exact absurd (isDigit_of_mem_toDigits hmem) (by decide)
  rw [parse, text, String.toList_ofList, List.splitOn_intercalate '.' hdot (by simp [octets])]
  simp [octets, parseOctet_toDigits]

theorem text_injective {ip ip' : IPv4} (h : ip.text = ip'.text) : ip = ip' :=
  Option.some.inj (by rw [← parse_text ip, h, parse_text])

theorem text_ne_empty : ip.text ≠ "" := by
  intro h
  have hparse := parse_text ip
  rw [h] at hparse
  have hnone : parse "" = none := by decide
  rw [hnone] at hparse
  cases hparse

end IPv4

/-- `IPv4Interface`: an address with the length of its network's prefix. -/
structure Interface where
  ip : IPv4
  length : ℕ
  deriving DecidableEq, Repr

/-- `addr in network` -/
def Interface.covers (i : Interface) (addr : IPv4) : Bool :=
  addr.bits &&& BitVec.allOnes 32 <<< (32 - i.length) ==
    i.ip.bits &&& BitVec.allOnes 32 <<< (32 - i.length)

/-- `is_loopback`, `is_link_local`, `is_unspecified` and the carrier's own space -/
def usable (ip : IPv4) : Bool :=
  !((Interface.mk ⟨127, 0, 0, 0⟩ 8).covers ip || (Interface.mk ⟨169, 254, 0, 0⟩ 16).covers ip ||
    ip == ⟨0, 0, 0, 0⟩ || (Interface.mk ⟨100, 64, 0, 0⟩ 10).covers ip)

/-- An address of an adapter: an `ifaddr.IP`, whose IPv6 addresses are never used. -/
inductive AdapterIp where
  | v4 (i : Interface)
  | v6
  deriving DecidableEq, Repr

def AdapterIp.lan : AdapterIp → Option Interface
  | .v4 i => if usable i.ip then some i else none
  | .v6 => none

/-- `ifaddr.Adapter` -/
structure Adapter where
  niceName : String
  name : String
  ips : List AdapterIp
  deriving DecidableEq, Repr

def Adapter.label (a : Adapter) : String := if a.niceName ≠ "" then a.niceName else a.name

def startsWithAny (prefixes : List String) (name : String) : Bool :=
  prefixes.any fun p => p.toList.isPrefixOf name.toList

def virtualPrefixes : List String :=
  ["docker", "br-", "veth", "virbr", "vmnet", "bridge", "utun", "tun", "tap", "tailscale", "wg",
    "zt"]

def wirelessPrefixes : List String := ["wl"]

/-- What a host's kernel says of it; `defaultRoute` is the near end of a socket to the internet,
and `hostname` what its own name resolves to, or nothing where `gethostbyname` raises. -/
structure Host where
  adapters : List Adapter
  defaultRoute : Option IPv4
  hostname : Option IPv4
  deriving DecidableEq, Repr

/-- `_via_interfaces` -/
def viaInterfaces (adapters : List Adapter) : Option IPv4 :=
  adapters.findSome? fun a =>
    if startsWithAny virtualPrefixes a.label then none
    else a.ips.findSome? fun ip => ip.lan.map Interface.ip

/-- `_lan_interfaces` -/
def lanInterfaces (adapters : List Adapter) : List (String × Interface) :=
  adapters.flatMap fun a =>
    if startsWithAny virtualPrefixes a.label then []
    else a.ips.filterMap fun ip => ip.lan.map fun i => (a.label, i)

namespace Host

/-- `local_ip`; nothing where it raises. -/
def localIp (h : Host) : Option IPv4 :=
  match h.defaultRoute.filter usable with
  | some ip => some ip
  | none =>
    match viaInterfaces h.adapters with
    | some ip => some ip
    | none => h.hostname

/-- The key of `local_ipv4s`: wired before wireless, then the address of the default route. The
index that ends it keeps the order of equals, as a stable sort does anyway. -/
def rank (h : Host) (i : String × Interface) : ℕ :=
  (if startsWithAny wirelessPrefixes i.1 then 2 else 0) +
    if some i.2.ip = h.defaultRoute then 0 else 1

def ranked (h : Host) : List (String × Interface) :=
  (lanInterfaces h.adapters).insertionSort fun i j => h.rank i ≤ h.rank j

def addIfNew (addresses : List IPv4) (ip : IPv4) : List IPv4 :=
  if ip ∈ addresses then addresses else addresses ++ [ip]

/-- `local_ipv4s`; nothing where it raises. -/
def localIpv4s (h : Host) : Option (List IPv4) :=
  let addresses := (h.ranked.map fun i => i.2.ip).foldl addIfNew []
  if addresses = [] then h.localIp.map fun ip => [ip] else some addresses

/-- `pick_reachable` -/
def pickReachable (h : Host) (candidates : List String) : Option String :=
  match candidates.find? fun c =>
    (IPv4.parse c).any fun addr => (lanInterfaces h.adapters).any fun i => i.2.covers addr with
  | some c => some c
  | none => candidates.head?

variable {h : Host} {ip : IPv4} {i j : String × Interface}

theorem mem_ranked : i ∈ h.ranked ↔ i ∈ lanInterfaces h.adapters := List.mem_insertionSort _

theorem pairwise_ranked (h : Host) : h.ranked.Pairwise fun i j => h.rank i ≤ h.rank j :=
  List.pairwise_insertionSort _ _

/-- Without an interface on a LAN no adapter has an address to fall back to. -/
theorem viaInterfaces_eq_none {adapters : List Adapter} (hnone : lanInterfaces adapters = []) :
    viaInterfaces adapters = none := by
  rw [viaInterfaces, List.findSome?_eq_none_iff]
  intro a ha
  have hnil := List.flatMap_eq_nil_iff.mp hnone a ha
  split at hnil
  · rename_i hvirtual
    rw [if_pos hvirtual]
  · rename_i hvirtual
    rw [if_neg hvirtual, List.findSome?_eq_none_iff]
    intro ip hip
    have hmap := List.filterMap_eq_nil_iff.mp hnil ip hip
    rw [Option.map_eq_none_iff] at hmap ⊢
    exact hmap

theorem mem_addIfNew {addresses : List IPv4} {ip' : IPv4} :
    ip' ∈ addIfNew addresses ip ↔ ip' ∈ addresses ∨ ip' = ip := by
  rw [addIfNew]
  split
  · constructor
    · exact Or.inl
    · rintro (hmem | rfl)
      · exact hmem
      · assumption
  · rw [List.mem_append, List.mem_singleton]

/-- `a` comes before `b` by right: an interface with `a` is ranked as high as any with `b`. -/
def Preferred (h : Host) (a b : IPv4) : Prop :=
  ∀ j ∈ lanInterfaces h.adapters, j.2.ip = b →
    ∃ i ∈ lanInterfaces h.adapters, i.2.ip = a ∧ h.rank i ≤ h.rank j

/-- What holds of the addresses collected when the interfaces `done` have been gone through. -/
structure Collected (h : Host) (done : List (String × Interface)) (addresses : List IPv4) :
    Prop where
  mem_iff : ∀ ip, ip ∈ addresses ↔ ∃ i ∈ done, i.2.ip = ip
  nodup : addresses.Nodup
  preferred : addresses.Pairwise h.Preferred

theorem Collected.add {done rest : List (String × Interface)} {addresses : List IPv4}
    (hc : Collected h done addresses) (hall : h.ranked = done ++ i :: rest) :
    Collected h (done ++ [i]) (addIfNew addresses i.2.ip) := by
  refine ⟨fun ip => ?_, ?_, ?_⟩
  · simp [mem_addIfNew, hc.mem_iff, or_and_right, exists_or, eq_comm]
  · rw [addIfNew]
    split
    · exact hc.nodup
    · rename_i hnew
      exact List.nodup_append.mpr ⟨hc.nodup, List.nodup_singleton _, by
        rintro a ha b hb rfl
        exact hnew (List.mem_singleton.mp hb ▸ ha)⟩
  · rw [addIfNew]
    split
    · exact hc.preferred
    · rename_i hnew
      refine List.pairwise_append.mpr ⟨hc.preferred, List.pairwise_singleton _ _, ?_⟩
      intro a ha b hb j hj hjb
      rw [List.mem_singleton] at hb
      obtain ⟨i', hi', rfl⟩ := (hc.mem_iff a).mp ha
      have hsorted := pairwise_ranked h
      rw [hall] at hsorted
      -- an interface with the new address has not been gone through yet
      have hrest : j ∈ i :: rest := by
        have hmem := mem_ranked.mpr hj
        rw [hall, List.mem_append] at hmem
        rcases hmem with hdone | hrest
        · exact absurd ((hc.mem_iff _).mpr ⟨j, hdone, hjb.trans hb⟩) hnew
        · exact hrest
      refine ⟨i', mem_ranked.mp ?_, rfl, (List.pairwise_append.mp hsorted).2.2 i' hi' j hrest⟩
      rw [hall]
      exact List.mem_append_left _ hi'

theorem collected_foldl : ∀ {rest done : List (String × Interface)} {addresses : List IPv4},
    Collected h done addresses → h.ranked = done ++ rest →
      Collected h h.ranked ((rest.map fun i => i.2.ip).foldl addIfNew addresses)
  | [], done, addresses, hc, hall => by
    rw [List.append_nil] at hall
    rw [hall]
    exact hc
  | i :: rest, done, addresses, hc, hall => by
    rw [List.map_cons, List.foldl_cons]
    exact collected_foldl (hc.add hall) (by rw [hall, List.append_assoc]; rfl)

theorem collected (h : Host) :
    Collected h h.ranked ((h.ranked.map fun i => i.2.ip).foldl addIfNew []) := by
  have hstart : Collected h [] [] := ⟨by simp, List.nodup_nil, List.Pairwise.nil⟩
  exact collected_foldl hstart rfl

theorem localIpv4s_of_lanInterfaces (hlan : lanInterfaces h.adapters ≠ []) :
    h.localIpv4s = some ((h.ranked.map fun i => i.2.ip).foldl addIfNew []) := by
  rw [localIpv4s, if_neg]
  intro hnil
  obtain ⟨i, hi⟩ := List.exists_mem_of_ne_nil _ hlan
  have hmem := ((collected h).mem_iff i.2.ip).mpr ⟨i, mem_ranked.mpr hi, rfl⟩
  rw [hnil] at hmem
  cases hmem

theorem localIpv4s_of_none (hlan : lanInterfaces h.adapters = []) :
    h.localIpv4s = ((h.defaultRoute.filter usable).or h.hostname).map fun ip => [ip] := by
  have hranked : h.ranked = [] := by rw [ranked, hlan, List.insertionSort_nil]
  rw [localIpv4s, hranked, List.map_nil, List.foldl_nil, if_pos rfl, localIp,
    viaInterfaces_eq_none hlan]
  cases h.defaultRoute.filter usable <;> rfl

theorem localIpv4s_ne_nil {addresses : List IPv4} (hl : h.localIpv4s = some addresses) :
    addresses ≠ [] := by
  rw [localIpv4s] at hl
  split at hl
  · obtain ⟨ip, -, rfl⟩ := Option.map_eq_some_iff.mp hl
    exact List.cons_ne_nil _ _
  · rename_i hne
    exact Option.some.inj hl ▸ hne

/-- What `local_ipv4s` comes to: a list, or nothing on a host without any address. -/
def Lists (h : Host) : Option (List IPv4) → Prop
  | none => lanInterfaces h.adapters = [] ∧ h.defaultRoute.filter usable = none ∧ h.hostname = none
  | some addresses => addresses ≠ [] ∧ addresses.Nodup ∧ addresses.Pairwise h.Preferred ∧
      ∀ ip, ip ∈ addresses ↔
        if lanInterfaces h.adapters = [] then
          (h.defaultRoute.filter usable).or h.hostname = some ip
        else ∃ i ∈ lanInterfaces h.adapters, i.2.ip = ip

/-- Every address of the host on a LAN is listed once, the preferred first; without one, the list
is the address of the default route, or what the host's name stands for, and without that
`gethostbyname` raises. -/
theorem localIpv4s_lists_lan (h : Host) : h.Lists h.localIpv4s := by
  by_cases hlan : lanInterfaces h.adapters = []
  · rw [localIpv4s_of_none hlan]
    cases hip : (h.defaultRoute.filter usable).or h.hostname with
    | none =>
      obtain ⟨hroute, hname⟩ := Option.or_eq_none_iff.mp hip
      exact ⟨hlan, hroute, hname⟩
    | some ip => simp [Lists, hlan, hip, eq_comm]
  · have hsome := localIpv4s_of_lanInterfaces hlan
    rw [hsome]
    refine ⟨localIpv4s_ne_nil hsome, (collected h).nodup, (collected h).preferred, fun ip => ?_⟩
    rw [if_neg hlan, (collected h).mem_iff]
    simp [mem_ranked]

/-- A candidate on a subnet of the host. -/
def Reaches (h : Host) (addr : IPv4) : Prop :=
  ∃ i ∈ lanInterfaces h.adapters, i.2.covers addr = true

theorem pickReachable_mem {candidates : List String} {c : String}
    (hpick : h.pickReachable candidates = some c) : c ∈ candidates := by
  rw [pickReachable] at hpick
  split at hpick
  · rename_i hfind
    cases hpick
    exact List.mem_of_find?_eq_some hfind
  · exact List.mem_of_head? hpick

theorem exists_pickReachable (h : Host) {candidates : List String} (hne : candidates ≠ []) :
    ∃ c, h.pickReachable candidates = some c := by
  obtain ⟨c, candidates, rfl⟩ := List.exists_cons_of_ne_nil hne
  rw [pickReachable]
  split
  · exact ⟨_, rfl⟩
  · exact ⟨c, rfl⟩

/-- If one of the candidates is on a subnet of the host, so is the one picked. -/
theorem pickReachable_reaches {addrs : List IPv4} (haddr : ∃ addr ∈ addrs, h.Reaches addr) :
    ∃ addr ∈ addrs, h.Reaches addr ∧ h.pickReachable (addrs.map IPv4.text) = some addr.text := by
  rw [pickReachable]
  split
  · rename_i c hfind
    obtain ⟨addr, hmem, rfl⟩ := List.mem_map.mp (List.mem_of_find?_eq_some hfind)
    have hany := List.find?_some hfind
    rw [IPv4.parse_text, Option.any_some, List.any_eq_true] at hany
    exact ⟨addr, hmem, hany, rfl⟩
  · rename_i hfind
    obtain ⟨addr, hmem, i, hi, hcovers⟩ := haddr
    have hno := List.find?_eq_none.mp hfind addr.text (List.mem_map_of_mem hmem)
    rw [IPv4.parse_text, Option.any_some, List.any_eq_true] at hno
    exact absurd ⟨i, hi, hcovers⟩ hno

end Host

end MbTools.Netaddr
