import Mathlib.Data.List.DropRight
import MbTools.Lib.Runs
import MbTools.Peering.Netaddr
import MbTools.Peering.Effects

/-! # Finding peers by mDNS

A host registers its service with its addresses and ports, reads its addresses again from time to
time, and records the services of others as it finds them. A step is one call, except that the
listener is told of new addresses in a step after the one that announces them.
-/

namespace MbTools.Discovery

open Netaddr

/-- The TXT record of a service, as zeroconf has it. -/
abbrev Properties := List (ByteArray × Option ByteArray)

/-- `_encode_txt` -/
def encodeTxt (txt : List (String × String)) : Properties :=
  txt.map fun kv => (kv.1.toUTF8, some kv.2.toUTF8)

/-- `_decode_txt`, or nothing when a byte string is not UTF-8. -/
def decodeTxt (decoded : Dict String String) : Properties → Option (Dict String String)
  | [] => some decoded
  | (key, value) :: rest =>
    (String.fromUTF8? key).bind fun k =>
      (match value with
        | none => some ""
        | some value => String.fromUTF8? value).bind fun v =>
          decodeTxt (decoded.insert k v) rest

theorem fromUTF8?_toUTF8 (s : String) : String.fromUTF8? s.toUTF8 = some s := by
  rw [String.fromUTF8?]
  split
  · rfl
  · rename_i h
    exact absurd s.isValidUTF8 (by simpa using h)

theorem decodeTxt_encodeTxt : ∀ (txt : List (String × String)) (decoded : Dict String String),
    ((decoded.rows ++ txt).map Prod.fst).Nodup →
      ∃ d, decodeTxt decoded (encodeTxt txt) = some d ∧ d.rows = decoded.rows ++ txt
  | [], decoded, _ => ⟨decoded, rfl, (List.append_nil _).symm⟩
  | (k, v) :: txt, decoded, hnodup => by
    have hnew : k ∉ decoded.rows.map Prod.fst := by
      intro hmem
      rw [List.map_append] at hnodup
      exact (List.nodup_append.mp hnodup).2.2 k hmem k (by simp) rfl
    have hrows : (decoded.insert k v).rows = decoded.rows ++ [(k, v)] := by
      rw [Dict.insert, Table.put, dif_neg hnew]
    obtain ⟨d, hd, hdrows⟩ := decodeTxt_encodeTxt txt (decoded.insert k v)
      (by rw [hrows, List.append_assoc]; exact hnodup)
    refine ⟨d, ?_, by rw [hdrows, hrows, List.append_assoc]; rfl⟩
    rw [encodeTxt, List.map_cons, decodeTxt, fromUTF8?_toUTF8, Option.bind_some,
      fromUTF8?_toUTF8, Option.bind_some]
    exact hd

/-- `ServiceInfo` as its owner registers it. -/
structure ServiceInfo where
  type : String
  name : String
  addresses : List (List UInt8)
  port : UInt16
  properties : Properties
  server : String

/-- `ServiceInfo` as a browser resolves it. -/
structure Info where
  properties : Properties
  parsedAddresses : List String
  server : String
  port : Option UInt16

/-- A browser is given the TXT record and the port that were registered, but the addresses of
the host in an order, and a number, of its own. -/
def ServiceInfo.seen (info : ServiceInfo) (parsedAddresses : List String) : Info where
  properties := info.properties
  parsedAddresses := parsedAddresses
  server := info.server
  port := some info.port

/-- `_resolve_address` -/
def resolveAddress (info : Info) : String :=
  match info.parsedAddresses with
  | a :: _ => a
  | [] => String.ofList (info.server.toList.rdropWhile (· = '.'))

def split (text : String) : List String := (text.toList.splitOn ',').map String.ofList

def join (texts : List String) : String :=
  String.ofList ([','].intercalate (texts.map String.toList))

/-- The `candidates` of `_choose_address`. -/
def candidates (info : Info) (txt : Dict String String) : List String :=
  let candidates := (split ((txt.lookup "addrs").getD "")).filter (· ≠ "")
  if candidates = [] then info.parsedAddresses.filter fun a => ':' ∉ a.toList else candidates

/-- `_choose_address` -/
def chooseAddress (h : Host) (info : Info) (txt : Dict String String) : String :=
  match h.pickReachable (candidates info txt) with
  | some a => if a ≠ "" then a else resolveAddress info
  | none => resolveAddress info

/-- `_peer_host_from_name` -/
def peerHostFromName (name serviceType : String) : String :=
  let suffix := '.' :: serviceType.toList
  if suffix.isSuffixOf name.toList then
    String.ofList (name.toList.take (name.toList.length - suffix.length))
  else String.ofList (name.toList.rdropWhile (· = '.'))

/-- A call of `connect_peer`. -/
structure PeerCall where
  host : String
  address : String
  pubPort : ℤ
  snapshotPort : ℤ
  deriving DecidableEq, Repr

/-- What `_record` makes of a service: its own, one it leaves out with a warning, one whose TXT
record is no text, or a peer to record and perhaps to connect to. -/
inductive Outcome where
  | own
  | skipped
  | raised
  | peer (host endpoint : String) (ready : Option PeerCall)
  deriving DecidableEq, Repr

/-- `_BrowseListener` -/
structure Listener where
  serviceType : String
  ownAddresses : List String
  ownPort : UInt16
  ownHost : Option String
  deriving DecidableEq, Repr

/-- The call of `on_peer_ready`, if both ports are there and are numbers. -/
def readyCall (host address : String) (txt : Dict String String) : Option PeerCall :=
  ((txt.lookup "pub_port").bind Json.parseInt).bind fun pub =>
    ((txt.lookup "snapshot_port").bind Json.parseInt).map fun snapshot =>
      ⟨host, address, pub, snapshot⟩

/-- `_record`, on a host with the addresses `h`. -/
def Listener.record (l : Listener) (h : Host) (name : String) (info : Info) : Outcome :=
  let host := peerHostFromName name l.serviceType
  if l.ownHost = some host then .own
  else
    match decodeTxt Table.empty info.properties with
    | none => .raised
    | some txt =>
      let address := chooseAddress h info txt
      if address ∈ l.ownAddresses ∧ info.port = some l.ownPort then .own
      else
        match txt.lookup "remote_port" with
        | none => .skipped
        | some port =>
          if address = "" ∨ port = "" then .skipped
          else
            match Json.parseInt port with
            | none => .skipped
            | some _ => .peer host (address ++ ":" ++ port) (readyCall host address txt)

/-- One host's part in discovery. -/
structure PeerDiscovery where
  host : String
  serviceType : String
  pinned : Bool
  addresses : List IPv4
  remotePort : UInt16
  pubPort : UInt16
  snapshotPort : UInt16
  started : Bool
  ownInfo : Option ServiceInfo
  listener : Option Listener
  /-- What the running `Zeroconf` answers for this host with. -/
  published : Option ServiceInfo
  /-- The info of a `refresh_addresses` that has announced it and not yet returned. -/
  pending : Option ServiceInfo
  store : Store
  /-- The calls of `connect_peer`. -/
  calls : List PeerCall

namespace PeerDiscovery

/-- `__init__` with these addresses. -/
def withAddresses (store : Store) (host serviceType : String) (pinned : Bool)
    (addresses : List IPv4) (remotePort pubPort snapshotPort : UInt16) : PeerDiscovery where
  host := host
  serviceType := serviceType
  pinned := pinned
  addresses := addresses
  remotePort := remotePort
  pubPort := pubPort
  snapshotPort := snapshotPort
  started := false
  ownInfo := none
  listener := none
  published := none
  pending := none
  store := store
  calls := []

/-- `__init__`: with an address given, or with those of the host `h`, if it has any. -/
def make (store : Store) (h : Host) (host serviceType : String) (advertise : Option IPv4)
    (remotePort pubPort snapshotPort : UInt16) : Option PeerDiscovery :=
  (match advertise with
    | some a => some [a]
    | none => h.localIpv4s).map fun addresses =>
      withAddresses store host serviceType advertise.isSome addresses remotePort pubPort
        snapshotPort

def txt (d : PeerDiscovery) : List (String × String) :=
  [("remote_port", toString d.remotePort.toNat), ("pub_port", toString d.pubPort.toNat),
    ("snapshot_port", toString d.snapshotPort.toNat),
    ("addrs", join (d.addresses.map IPv4.text))]

/-- `_build_own_info` -/
def buildOwnInfo (d : PeerDiscovery) (name : String) : ServiceInfo where
  type := d.serviceType
  name := name
  addresses := d.addresses.map IPv4.octets
  port := d.remotePort
  properties := encodeTxt d.txt
  server := d.host ++ ".local."

/-- The bare name zeroconf registers the host under: its own, or one with a number after it when
that is taken on the network. -/
def instanceName (d : PeerDiscovery) : Option ℕ → String
  | none => d.host
  | some n => d.host ++ "-" ++ toString n

inductive Action where
  | setRemotePort (port : UInt16)
  /-- The number zeroconf puts after the name, if it has to. -/
  | start (renamed : Option ℕ)
  | stop
  /-- `refresh_addresses` up to its `update_service`. When that raises, `raises` says whether it
  had taken effect. -/
  | refresh (h : Host) (raises : Option Bool)
  /-- The rest of a `refresh_addresses`. -/
  | settle
  /-- The browser has resolved a service. -/
  | found (now : ℕ) (h : Host) (name : String) (info : Info)

def startWith (d : PeerDiscovery) (name : String) : PeerDiscovery :=
  let info := d.buildOwnInfo name
  { d with
    started := true
    ownInfo := some info
    published := some info
    listener := some ⟨d.serviceType, d.addresses.map IPv4.text, d.remotePort, some d.host⟩ }

def loopback (a : IPv4) : Bool := ['1', '2', '7', '.'].isPrefixOf a.text.toList

/-- The addresses a refresh goes on with, if it does. -/
def changed (d : PeerDiscovery) (h : Host) : Option (List IPv4) :=
  if d.pinned then none
  else h.localIpv4s.filter fun new =>
    ¬ (new = [] ∨ (∀ a ∈ new, loopback a) ∨ new = d.addresses)

def readdress (d : PeerDiscovery) (own : ServiceInfo) (new : List IPv4) :
    Option Bool → PeerDiscovery
  | none =>
    let d := { d with addresses := new }
    let info := d.buildOwnInfo own.name
    { d with published := some info, pending := some info }
  | some applied =>
    let d := { d with addresses := new }
    { d with published := if applied then some (d.buildOwnInfo own.name) else d.published }

def relisten (d : PeerDiscovery) (l : Listener) : Listener :=
  { l with ownAddresses := d.addresses.map IPv4.text }

def record (d : PeerDiscovery) (now : ℕ) : Outcome → PeerDiscovery
  | .peer host endpoint ready => { d with
      store := d.store.recordPeerSeen now host endpoint
      calls := d.calls ++ ready.toList }
  | _ => d

def step (d : PeerDiscovery) : Action → Option PeerDiscovery
  | .setRemotePort port => some { d with remotePort := port }
  | .start renamed =>
    if d.started then some d
    else some (d.startWith (d.instanceName renamed ++ "." ++ d.serviceType))
  | .stop =>
    if d.started = false then some d
    -- the thread that refreshes is joined before anything is torn down
    else if d.pending = none then
      some { d with started := false, ownInfo := none, published := none }
    else none
  | .refresh h raises =>
    if d.pending = none then
      match d.published, d.ownInfo, d.changed h with
      | some _, some own, some new => some (d.readdress own new raises)
      | _, _, _ => some d
    else none
  | .settle =>
    match d.pending with
    | some info => some { d with
        pending := none
        ownInfo := some info
        listener := d.listener.map d.relisten }
    | none => none
  | .found now h name info =>
    match d.listener with
    | some l => some (d.record now (l.record h name info))
    | none => none

/-- The port is set before the service is registered, as `cmd_run` does, and no `update_service`
raises. -/
def Proper (d : PeerDiscovery) : Action → Prop
  | .setRemotePort _ => d.started = false
  | .refresh _ raises => raises = none
  | _ => True

instance (d : PeerDiscovery) : ∀ a, Decidable (d.Proper a)
  | .setRemotePort _ => inferInstanceAs (Decidable (d.started = false))
  | .refresh _ raises => inferInstanceAs (Decidable (raises = none))
  | .start _ | .stop | .settle | .found .. => isTrue trivial

end PeerDiscovery

variable {h : Host} {d : PeerDiscovery} {l : Listener} {name : String} {addrs : List IPv4}

theorem peerHostFromName_append (host serviceType : String) :
    peerHostFromName (host ++ "." ++ serviceType) serviceType = host := by
  have hname : (host ++ "." ++ serviceType).toList =
      host.toList ++ '.' :: serviceType.toList := by
    rw [String.toList_append, String.toList_append, List.append_assoc]
    rfl
  rw [peerHostFromName, hname, if_pos (List.isSuffixOf_iff_suffix.mpr ⟨host.toList, rfl⟩),
    List.length_append, Nat.add_sub_cancel, List.take_left, String.ofList_toList]

theorem split_join (hne : addrs ≠ []) :
    split (join (addrs.map IPv4.text)) = addrs.map IPv4.text := by
  have hcomma : ∀ t ∈ (addrs.map IPv4.text).map String.toList, ',' ∉ t := by
    intro t ht hmem
    obtain ⟨s, hs, rfl⟩ := List.mem_map.mp ht
    obtain ⟨a, -, rfl⟩ := List.mem_map.mp hs
    rcases a.mem_text hmem with h | h
    · exact absurd h (by decide)
    · exact absurd h (by decide)
  rw [split, join, String.toList_ofList, List.splitOn_intercalate ',' hcomma (by simpa using hne),
    List.map_map]
  exact (List.map_congr_left fun t _ => String.ofList_toList).trans (List.map_id _)

/-- The TXT record a browser reads is the one the host put there. -/
theorem decodeTxt_own (d : PeerDiscovery) (name : String) :
    ∃ txt, decodeTxt Table.empty (d.buildOwnInfo name).properties = some txt ∧
      txt.lookup "remote_port" = some (toString d.remotePort.toNat) ∧
      txt.lookup "pub_port" = some (toString d.pubPort.toNat) ∧
      txt.lookup "snapshot_port" = some (toString d.snapshotPort.toNat) ∧
      txt.lookup "addrs" = some (join (d.addresses.map IPv4.text)) := by
  have hnodup : (((Table.empty : Dict String String).rows ++ d.txt).map Prod.fst).Nodup := by
    show ["remote_port", "pub_port", "snapshot_port", "addrs"].Nodup
    decide
  obtain ⟨txt, htxt, hrows⟩ := decodeTxt_encodeTxt d.txt Table.empty hnodup
  have hlookup : ∀ k v, (k, v) ∈ d.txt → txt.lookup k = some v := by
    intro k v hmem
    rw [← Dict.mem_rows_iff_lookup, hrows]
    exact hmem
  exact ⟨txt, htxt, hlookup _ _ (by simp [PeerDiscovery.txt]),
    hlookup _ _ (by simp [PeerDiscovery.txt]), hlookup _ _ (by simp [PeerDiscovery.txt]),
    hlookup _ _ (by simp [PeerDiscovery.txt])⟩

/-- Of a host that advertises addresses it is one of these that is picked, whichever the browser
has resolved. -/
theorem chooseAddress_own {txt : Dict String String} (info : Info) (hne : addrs ≠ [])
    (htxt : txt.lookup "addrs" = some (join (addrs.map IPv4.text))) :
    ∃ addr ∈ addrs, chooseAddress h info txt = addr.text ∧
      h.pickReachable (addrs.map IPv4.text) = some addr.text := by
  have hall : (addrs.map IPv4.text).filter (· ≠ "") = addrs.map IPv4.text := by
    rw [List.filter_eq_self]
    intro t ht
    obtain ⟨a, -, rfl⟩ := List.mem_map.mp ht
    exact decide_eq_true a.text_ne_empty
  have hcandidates : candidates info txt = addrs.map IPv4.text := by
    rw [candidates, htxt, Option.getD_some, split_join hne, hall, if_neg (by simpa using hne)]
  obtain ⟨c, hpick⟩ := h.exists_pickReachable (by simpa using hne : addrs.map IPv4.text ≠ [])
  obtain ⟨addr, hmem, rfl⟩ := List.mem_map.mp (Host.pickReachable_mem hpick)
  refine ⟨addr, hmem, ?_, hpick⟩
  rw [chooseAddress, hcandidates, hpick]
  exact if_pos addr.text_ne_empty

theorem parseInt_port (p : UInt16) : Json.parseInt (toString p.toNat) = some (p.toNat : ℤ) :=
  Json.parseInt_toString (lt_of_lt_of_le p.toNat_lt (by decide +kernel))

theorem toString_port_ne_empty (p : UInt16) : toString p.toNat ≠ "" := by
  intro h
  have hparse := parseInt_port p
  rw [h] at hparse
  have hnone : Json.parseInt "" = none := by decide
  rw [hnone] at hparse
  cases hparse

/-- What a listener makes of the service of a host: its own by the name, its own by the address and
the port, or a peer with its endpoint and the ports to connect to. -/
theorem record_own (hne : d.addresses ≠ []) (parsed : List String) (host : String)
    (hhost : peerHostFromName name l.serviceType = host) :
    ∃ addr ∈ d.addresses, h.pickReachable (d.addresses.map IPv4.text) = some addr.text ∧
      l.record h name ((d.buildOwnInfo name).seen parsed) =
        if l.ownHost = some host ∨ (addr.text ∈ l.ownAddresses ∧ d.remotePort = l.ownPort) then
          .own
        else .peer host (addr.text ++ ":" ++ toString d.remotePort.toNat)
          (some ⟨host, addr.text, d.pubPort.toNat, d.snapshotPort.toNat⟩) := by
  obtain ⟨txt, hdecode, hremote, hpub, hsnapshot, haddrs⟩ := decodeTxt_own d name
  obtain ⟨addr, hmem, hchoose, hpick⟩ :=
    chooseAddress_own (h := h) ((d.buildOwnInfo name).seen parsed) hne haddrs
  have hready : readyCall host addr.text txt =
      some ⟨host, addr.text, d.pubPort.toNat, d.snapshotPort.toNat⟩ := by
    rw [readyCall, hpub, hsnapshot, Option.bind_some, Option.bind_some, parseInt_port,
      parseInt_port]
    rfl
  have hport : ((d.buildOwnInfo name).seen parsed).port = some l.ownPort ↔
      d.remotePort = l.ownPort := Option.some_inj
  refine ⟨addr, hmem, hpick, ?_⟩
  rw [Listener.record, hhost]
  by_cases hown : l.ownHost = some host
  · rw [if_pos hown, if_pos (Or.inl hown)]
  · have hdecode' : decodeTxt Table.empty ((d.buildOwnInfo name).seen parsed).properties =
        some txt := hdecode
    simp only [hown, false_or, hdecode', hchoose, hport, hremote, addr.text_ne_empty,
      toString_port_ne_empty, or_self, if_false, parseInt_port, hready]

namespace PeerDiscovery

variable {d' : PeerDiscovery} {a : Action} {acts : List Action}

/-- What a proper run keeps: while the host is up it is announced as it would be built now, and
its listener knows the host's name, port and, between refreshes, addresses. -/
structure Announced (d : PeerDiscovery) : Prop where
  addresses : d.addresses ≠ []
  down : d.started = false → d.published = none ∧ d.pending = none
  up : d.started = true → ∃ n l,
    d.published = some (d.buildOwnInfo (d.instanceName n ++ "." ++ d.serviceType)) ∧
      (d.ownInfo.map ServiceInfo.name) = some (d.instanceName n ++ "." ++ d.serviceType) ∧
      d.listener = some l ∧ l.serviceType = d.serviceType ∧ l.ownPort = d.remotePort ∧
      (d.pending = none → l.ownAddresses = d.addresses.map IPv4.text)
  pending : ∀ info, d.pending = some info → d.published = some info

theorem announced_withAddresses (store : Store) (host serviceType : String) (pinned : Bool)
    {addresses : List IPv4} (hne : addresses ≠ []) (remotePort pubPort snapshotPort : UInt16) :
    (withAddresses store host serviceType pinned addresses remotePort pubPort
      snapshotPort).Announced :=
  ⟨hne, fun _ => ⟨rfl, rfl⟩, by rintro ⟨⟩, by rintro _ ⟨⟩⟩

theorem Announced.start (hd : d.Announced) (hdown : d.started = false) (n : Option ℕ) :
    (d.startWith (d.instanceName n ++ "." ++ d.serviceType)).Announced := by
  obtain ⟨-, hpending⟩ := hd.down hdown
  refine ⟨hd.addresses, by rintro ⟨⟩, fun _ => ⟨n, _, rfl, rfl, rfl, rfl, rfl, fun _ => rfl⟩, ?_⟩
  intro info hinfo
  exact absurd (hpending.symm.trans hinfo) (by rintro ⟨⟩)

theorem changed_ne_nil {new : List IPv4} (h' : d.changed h = some new) : new ≠ [] := by
  rw [changed] at h'
  split at h'
  · cases h'
  · obtain ⟨hnew, -⟩ := Option.filter_eq_some_iff.mp h'
    exact Host.localIpv4s_ne_nil hnew

theorem Announced.readdress {own : ServiceInfo} {new : List IPv4} (hd : d.Announced)
    (hup : d.started = true) (hown : d.ownInfo = some own) (hnew : new ≠ []) :
    (d.readdress own new none).Announced := by
  obtain ⟨n, l, -, hname, hl, htype, hport, -⟩ := hd.up hup
  refine ⟨hnew, fun hdown => absurd (hup.symm.trans hdown) (by decide),
    fun _ => ⟨n, l, ?_, hname, hl, htype, hport, by rintro ⟨⟩⟩, by rintro info ⟨⟩; rfl⟩
  rw [hown] at hname
  exact congrArg (fun name => some (buildOwnInfo { d with addresses := new } name))
    (Option.some.inj hname)

theorem Announced.settle {info : ServiceInfo} (hd : d.Announced) (hp : d.pending = some info) :
    Announced { d with
      pending := none
      ownInfo := some info
      listener := d.listener.map d.relisten } := by
  have hpub := hd.pending info hp
  have hup : d.started = true := by
    by_contra hdown
    have hnone := (hd.down (by simpa using hdown)).2
    rw [hp] at hnone
    cases hnone
  obtain ⟨n, l, hpub', -, hl, htype, hport, -⟩ := hd.up hup
  obtain rfl := Option.some.inj (hpub.symm.trans hpub')
  refine ⟨hd.addresses, fun hdown => absurd (hup.symm.trans hdown) (by decide), fun _ =>
    ⟨n, d.relisten l, hpub, rfl, by rw [hl]; rfl, htype, hport, fun _ => rfl⟩, by rintro _ ⟨⟩⟩

theorem Announced.record (hd : d.Announced) (now : ℕ) (o : Outcome) :
    (d.record now o).Announced := by
  cases o with
  | peer host endpoint ready => exact ⟨hd.addresses, hd.down, hd.up, hd.pending⟩
  | own => exact hd
  | skipped => exact hd
  | raised => exact hd

/-- What a step does, if it does anything. -/
inductive Turn (d : PeerDiscovery) : Action → PeerDiscovery → Prop where
  | idle {a : Action} : Turn d a d
  | setRemotePort {port : UInt16} : Turn d (.setRemotePort port) { d with remotePort := port }
  | start {renamed : Option ℕ} : d.started = false →
      Turn d (.start renamed) (d.startWith (d.instanceName renamed ++ "." ++ d.serviceType))
  | stop : d.pending = none →
      Turn d .stop { d with started := false, ownInfo := none, published := none }
  | refresh {h : Host} {raises : Option Bool} {info own : ServiceInfo} {new : List IPv4} :
      d.published = some info → d.ownInfo = some own → d.changed h = some new →
      Turn d (.refresh h raises) (d.readdress own new raises)
  | settle {info : ServiceInfo} : d.pending = some info →
      Turn d .settle
        { d with
          pending := none
          ownInfo := some info
          listener := d.listener.map d.relisten }
  | found {now : ℕ} {h : Host} {name : String} {info : Info} {l : Listener} :
      d.listener = some l → Turn d (.found now h name info) (d.record now (l.record h name info))

theorem turn_of_step (hs : d.step a = some d') : Turn d a d' := by
  cases a with
  | setRemotePort port =>
    cases hs
    exact .setRemotePort
  | start n =>
    rw [PeerDiscovery.step] at hs
    split at hs
    · cases hs
      exact .idle
    · rename_i hdown
      cases hs
      exact .start (by simpa using hdown)
  | stop =>
    rw [PeerDiscovery.step] at hs
    split at hs
    · cases hs
      exact .idle
    · split at hs
      · rename_i hpending
        cases hs
        exact .stop hpending
      · cases hs
  | refresh h raises =>
    rw [PeerDiscovery.step] at hs
    split at hs
    · split at hs
      · rename_i info own new hpub hown hchanged
        cases hs
        exact .refresh hpub hown hchanged
      · cases hs
        exact .idle
    · cases hs
  | settle =>
    rw [PeerDiscovery.step] at hs
    split at hs
    · rename_i info hp
      cases hs
      exact .settle hp
    · cases hs
  | found now h name info =>
    rw [PeerDiscovery.step] at hs
    split at hs
    · rename_i l hl
      cases hs
      exact .found hl
    · cases hs

theorem Announced.step (hd : d.Announced) (hok : d.Proper a) (hs : d.step a = some d') :
    d'.Announced := by
  cases turn_of_step hs with
  | idle => exact hd
  | setRemotePort =>
    exact ⟨hd.addresses, hd.down, fun hup => absurd (hup.symm.trans hok) (by decide), hd.pending⟩
  | @start n hdown => exact hd.start hdown n
  | stop hpending =>
    refine ⟨hd.addresses, fun _ => ⟨rfl, hpending⟩, by rintro ⟨⟩, fun info hinfo => ?_⟩
    exact absurd (hpending.symm.trans hinfo) (by rintro ⟨⟩)
  | @refresh _ raises _ _ _ hpub hown hchanged =>
    obtain rfl : raises = none := hok
    have hup : d.started = true := by
      by_contra hdown
      have hnone := (hd.down (by simpa using hdown)).1
      rw [hpub] at hnone
      cases hnone
    exact hd.readdress hup hown (changed_ne_nil hchanged)
  | settle hp => exact hd.settle hp
  | found _ => exact hd.record _ _

theorem announced_of_exec (hd : d.Announced) (hok : Runs.Meets step Proper d acts)
    (hr : Runs.exec step d acts = some d') : d'.Announced :=
  Runs.inv_of_meets (fun _ _ _ => Announced.step) hd hok hr

/-- As constructed. -/
def Made (d : PeerDiscovery) : Prop :=
  ∃ store h host serviceType advertise remotePort pubPort snapshotPort,
    make store h host serviceType advertise remotePort pubPort snapshotPort = some d

theorem Made.exists_addresses (hd : d.Made) :
    ∃ store host serviceType pinned addresses remotePort pubPort snapshotPort, addresses ≠ [] ∧
      withAddresses store host serviceType pinned addresses remotePort pubPort snapshotPort =
        d := by
  obtain ⟨store, h, host, serviceType, advertise, r, p, s, hd⟩ := hd
  obtain ⟨addresses, haddr, rfl⟩ := Option.map_eq_some_iff.mp hd
  refine ⟨store, host, serviceType, _, addresses, r, p, s, ?_, rfl⟩
  cases advertise with
  | none => exact Host.localIpv4s_ne_nil haddr
  | some a =>
    cases haddr
    exact List.cons_ne_nil _ _

theorem Made.announced (hd : d.Made) : d.Announced := by
  obtain ⟨store, host, serviceType, pinned, addresses, r, p, s, hne, rfl⟩ := hd.exists_addresses
  exact announced_withAddresses store host serviceType pinned hne r p s

/-- What every run keeps: the listener knows the host's name, and no peer is recorded under it. -/
structure Apart (d₀ d : PeerDiscovery) : Prop where
  host : d.host = d₀.host
  listener : ∀ l, d.listener = some l → l.ownHost = some d.host ∧ l.serviceType = d.serviceType
  row : d.store.getPeer d₀.host = d₀.store.getPeer d₀.host
  calls : ∀ c ∈ d.calls, c.host ≠ d₀.host

theorem Made.apart (hd : d.Made) : Apart d d := by
  obtain ⟨store, host, serviceType, pinned, addresses, r, p, s, -, rfl⟩ := hd.exists_addresses
  exact ⟨rfl, by rintro _ ⟨⟩, rfl, by rintro _ ⟨⟩⟩

theorem step_found {info : Info} {o : Outcome} (now : ℕ) (hl : d.listener = some l)
    (ho : l.record h name info = o) : step d (.found now h name info) = some (d.record now o) := by
  rw [PeerDiscovery.step, hl, ← ho]

theorem readyCall_host {host address : String} {txt : Dict String String} {c : PeerCall}
    (hc : readyCall host address txt = some c) : c.host = host := by
  obtain ⟨pub, -, hc⟩ := Option.bind_eq_some_iff.mp hc
  obtain ⟨snapshot, -, rfl⟩ := Option.map_eq_some_iff.mp hc
  rfl

/-- A listener that knows its host's name records no peer under it. -/
theorem ne_of_record {info : Info} {own host endpoint : String} {ready : Option PeerCall}
    (hown : l.ownHost = some own) (hr : l.record h name info = .peer host endpoint ready) :
    host ≠ own ∧ ∀ c ∈ ready, c.host = host := by
  rw [Listener.record] at hr
  split at hr
  · cases hr
  · rename_i hne
    rw [hown, Option.some_inj] at hne
    split at hr
    · cases hr
    · rename_i txt htxt
      dsimp only at hr
      split at hr
      · cases hr
      · split at hr
        · cases hr
        · split at hr
          · cases hr
          · split at hr
            · cases hr
            · cases hr
              exact ⟨Ne.symm hne, fun c hc => readyCall_host hc⟩

theorem Apart.record {d₀ : PeerDiscovery} {o : Outcome} (hd : Apart d₀ d) (now : ℕ)
    (ho : ∀ host endpoint ready, o = .peer host endpoint ready →
      host ≠ d₀.host ∧ ∀ c ∈ ready, c.host = host) : Apart d₀ (d.record now o) := by
  cases o with
  | own => exact hd
  | skipped => exact hd
  | raised => exact hd
  | peer host endpoint ready =>
    obtain ⟨hne, hready⟩ := ho host endpoint ready rfl
    refine ⟨hd.host, hd.listener, ?_, ?_⟩
    · rw [← hd.row]
      exact (Store.getPeer_recordPeerSeen d.store now host endpoint d₀.host).trans (if_neg hne)
    · intro c hc
      rcases List.mem_append.mp hc with hc | hc
      · exact hd.calls c hc
      · rw [hready c (Option.mem_toList.mp hc)]
        exact hne

theorem Apart.step {d₀ : PeerDiscovery} (hd : Apart d₀ d) (hs : d.step a = some d') :
    Apart d₀ d' := by
  cases turn_of_step hs with
  | idle => exact hd
  | setRemotePort => exact ⟨hd.host, hd.listener, hd.row, hd.calls⟩
  | start _ => exact ⟨hd.host, by rintro l ⟨⟩; exact ⟨rfl, rfl⟩, hd.row, hd.calls⟩
  | stop _ => exact ⟨hd.host, hd.listener, hd.row, hd.calls⟩
  | @refresh _ raises _ _ _ _ _ _ =>
    cases raises with
    | none => exact ⟨hd.host, hd.listener, hd.row, hd.calls⟩
    | some applied => exact ⟨hd.host, hd.listener, hd.row, hd.calls⟩
  | settle _ =>
    refine ⟨hd.host, fun l hl => ?_, hd.row, hd.calls⟩
    obtain ⟨l', hl', rfl⟩ := Option.map_eq_some_iff.mp hl
    exact hd.listener l' hl'
  | @found now _ _ _ l hl =>
    exact hd.record now fun host endpoint ready ho =>
      ne_of_record ((hd.listener l hl).1.trans (congrArg some hd.host)) ho

theorem apart_of_exec {d₀ : PeerDiscovery} (hd₀ : d₀.Made)
    (hr : Runs.exec step d₀ acts = some d) : Apart d₀ d :=
  Runs.inv_of_exec (fun _ _ _ => Apart.step) hd₀.apart hr

/-- However long both have run, a host that finds the service of another records it under the
name it is registered by, at the first of its present addresses that is on a subnet of the
finder, else at its first, and connects to the ports it has; whichever addresses the browser
resolved. -/
theorem peer_is_found {A₀ A B₀ B : PeerDiscovery} {as bs : List Action} (hA₀ : A₀.Made)
    (hB₀ : B₀.Made) (hA : Runs.exec step A₀ as = some A) (hok : Runs.Meets step Proper A₀ as)
    (hB : Runs.exec step B₀ bs = some B) (hup : A.started = true)
    (htype : A.serviceType = B.serviceType) (hbrowses : B.listener ≠ none)
    (hapart : ∀ l, B.listener = some l →
      A.remotePort = l.ownPort → ∀ a ∈ A.addresses, a.text ∉ l.ownAddresses) :
    ∃ n info, A.published = some info ∧
      info.name = A.instanceName n ++ "." ++ A.serviceType ∧
      (A.instanceName n ≠ B.host → ∀ now h parsed, ∃ addr ∈ A.addresses, ∃ B',
        step B (.found now h info.name (info.seen parsed)) = some B' ∧
        h.pickReachable (A.addresses.map IPv4.text) = some addr.text ∧
        ((∃ a ∈ A.addresses, h.Reaches a) → h.Reaches addr) ∧
        B'.store.getPeer (A.instanceName n) = some ⟨A.instanceName n,
          addr.text ++ ":" ++ toString A.remotePort.toNat, now, true⟩ ∧
        B'.calls = B.calls ++
          [⟨A.instanceName n, addr.text, A.pubPort.toNat, A.snapshotPort.toNat⟩]) := by
  have hann := announced_of_exec hA₀.announced hok hA
  obtain ⟨n, -, hpub, -⟩ := hann.up hup
  refine ⟨n, _, hpub, rfl, fun hname now h parsed => ?_⟩
  obtain ⟨l, hl⟩ := Option.ne_none_iff_exists'.mp hbrowses
  obtain ⟨hhost, hltype⟩ := (apart_of_exec hB₀ hB).listener l hl
  have hfrom : peerHostFromName (A.instanceName n ++ "." ++ A.serviceType) l.serviceType =
      A.instanceName n := by
    rw [hltype, ← htype, peerHostFromName_append]
  obtain ⟨addr, hmem, hpick, hrecord⟩ := record_own (h := h) hann.addresses parsed _ hfrom
  have hnot : ¬ (l.ownHost = some (A.instanceName n) ∨
      (addr.text ∈ l.ownAddresses ∧ A.remotePort = l.ownPort)) := by
    rintro (hown | ⟨haddr, hport⟩)
    · exact hname (Option.some.inj (hhost.symm.trans hown)).symm
    · exact hapart l hl hport addr hmem haddr
  rw [if_neg hnot] at hrecord
  refine ⟨addr, hmem, _, step_found now hl hrecord, hpick, ?_, ?_, ?_⟩
  · intro hreach
    obtain ⟨addr', -, hreaches, hpick'⟩ := Host.pickReachable_reaches hreach
    obtain rfl := IPv4.text_injective (Option.some.inj (hpick.symm.trans hpick'))
    exact hreaches
  · exact (Store.getPeer_recordPeerSeen ..).trans (if_pos rfl)
  · rfl

/-- A host with one wired address. -/
def wired (ip : IPv4) : Host := ⟨[⟨"eth0", "eth0", [.v4 ⟨ip, 24⟩]⟩], some ip, some ⟨127, 0, 1, 1⟩⟩

def onWire (ip : IPv4) (host : String) : PeerDiscovery :=
  withAddresses Store.empty host "_mbregistry._tcp.local." false [ip] 7440 7442 7443

theorem made_onWire (ip : IPv4) (host : String) (hip : usable ip = true) :
    (onWire ip host).Made := by
  refine ⟨Store.empty, wired ip, host, "_mbregistry._tcp.local.", none, 7440, 7442, 7443, ?_⟩
  have hlan : lanInterfaces (wired ip).adapters = [("eth0", ⟨ip, 24⟩)] := by
    simp [lanInterfaces, wired, Adapter.label, startsWithAny, virtualPrefixes, AdapterIp.lan, hip]
  have haddr : (wired ip).localIpv4s = some [ip] := by
    rw [Host.localIpv4s_of_lanInterfaces (by simp [hlan]), Host.ranked, hlan]
    rfl
  rw [make, haddr]
  rfl

/-- A host registered under a second name, whose address changes afterwards. -/
def roaming : List Action := [.start (some 2), .refresh (wired ⟨10, 0, 0, 9⟩) none, .settle]

def roamed : PeerDiscovery :=
  (Runs.exec step (onWire ⟨10, 0, 0, 5⟩ "loki") roaming).getD (onWire ⟨10, 0, 0, 5⟩ "loki")

def browsing : PeerDiscovery :=
  (Runs.exec step (onWire ⟨10, 0, 0, 7⟩ "thor") [.start none]).getD
    (onWire ⟨10, 0, 0, 7⟩ "thor")

theorem instanceName_ne_thor (n : Option ℕ) : roamed.instanceName n ≠ "thor" := by
  have hl : ∃ cs, (roamed.instanceName n).toList = 'l' :: cs := by
    cases n with
    | none => exact ⟨['o', 'k', 'i'], rfl⟩
    | some n =>
      rw [instanceName, String.toList_append, String.toList_append]
      exact ⟨_, rfl⟩
  rintro h
  obtain ⟨cs, hcs⟩ := hl
  rw [h] at hcs
  exact absurd (List.cons.inj hcs).1 (by decide)

theorem roamed_is_found : ∃ n info B', roamed.published = some info ∧
    step browsing (.found 4 (wired ⟨10, 0, 0, 7⟩) info.name (info.seen ["172.17.0.1"])) = some B' ∧
    B'.store.getPeer (roamed.instanceName n) =
      some ⟨roamed.instanceName n, "10.0.0.9:7440", 4, true⟩ := by
  have hroamed : Runs.exec step (onWire ⟨10, 0, 0, 5⟩ "loki") roaming = some roamed := rfl
  have hbrowsing : Runs.exec step (onWire ⟨10, 0, 0, 7⟩ "thor") [.start none] =
    some browsing := rfl
  have hapart : ∀ l, browsing.listener = some l → roamed.remotePort = l.ownPort →
      ∀ a ∈ roamed.addresses, a.text ∉ l.ownAddresses := by
    rintro l ⟨⟩ - a ha
    obtain rfl := List.mem_singleton.mp ha
    decide
  obtain ⟨n, info, hpub, -, hfound⟩ := peer_is_found (made_onWire _ _ (by decide))
    (made_onWire _ _ (by decide)) hroamed
    (by decide) hbrowsing rfl rfl (by decide) hapart
  obtain ⟨addr, haddr, B', hstep, -, -, hrow, -⟩ :=
    hfound (instanceName_ne_thor n) 4 (wired ⟨10, 0, 0, 7⟩) ["172.17.0.1"]
  obtain rfl := List.mem_singleton.mp haddr
  exact ⟨n, info, B', hpub, hstep, hrow⟩

/-- No run records a peer under the host's own name or connects to one; and between refreshes its
own announcement changes nothing, under whatever name zeroconf has registered it and with
whichever addresses the browser has resolved it. -/
theorem never_its_own_peer {d₀ : PeerDiscovery} (hd₀ : d₀.Made)
    (hr : Runs.exec step d₀ acts = some d) :
    d.store.getPeer d.host = d₀.store.getPeer d₀.host ∧ (∀ c ∈ d.calls, c.host ≠ d.host) ∧
      (Runs.Meets step Proper d₀ acts → d.started = true → d.pending = none →
        ∃ info, d.published = some info ∧ ∀ now h parsed,
          step d (.found now h info.name (info.seen parsed)) = some d) := by
  have hapart := apart_of_exec hd₀ hr
  refine ⟨hapart.host ▸ hapart.row, fun c hc => hapart.host ▸ hapart.calls c hc, ?_⟩
  intro hok hup hsettled
  have hann := announced_of_exec hd₀.announced hok hr
  obtain ⟨n, l, hpub, -, hl, htype, hport, haddrs⟩ := hann.up hup
  refine ⟨_, hpub, fun now h parsed => ?_⟩
  have hfrom : peerHostFromName (d.instanceName n ++ "." ++ d.serviceType) l.serviceType =
      d.instanceName n := by
    rw [htype, peerHostFromName_append]
  obtain ⟨addr, hmem, -, hrecord⟩ := record_own (h := h) hann.addresses parsed _ hfrom
  rw [if_pos (Or.inr ⟨haddrs hsettled ▸ List.mem_map_of_mem hmem, hport.symm⟩)] at hrecord
  exact step_found now hl hrecord

theorem roamed_is_not_its_own_peer : ∃ info, roamed.published = some info ∧
    step roamed (.found 4 (wired ⟨10, 0, 0, 9⟩) info.name (info.seen ["172.17.0.1"])) =
      some roamed := by
  have hroamed : Runs.exec step (onWire ⟨10, 0, 0, 5⟩ "loki") roaming = some roamed := rfl
  obtain ⟨info, hpub, hfound⟩ :=
    (never_its_own_peer (made_onWire _ _ (by decide)) hroamed).2.2 (by decide) rfl rfl
  exact ⟨info, hpub, hfound 4 _ _⟩

end PeerDiscovery

end MbTools.Discovery
