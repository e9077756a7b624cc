/-
The destinations a datagram is queued with.  The address of a group is looked up in a
table all workers share, and the address of a target and group in a table of the worker,
which starts small and doubles; both are filled on first use.  Workers take turns at
every load and store of the shared table, and what each target is sent to is what it
would be without the tables.
-/
import ShardProxy.Egress
import ShardProxy.EmittingPaths
import ShardProxy.Lib.SharedThreads

namespace ShardProxy

open ByteField SharedThreads

def addrCacheInit : Nat := 64

/-- The doubling loop: the length it leaves with, or nothing if it is still running after
`fuel` rounds. -/
def doubleTo (idx : Nat) : Nat → Nat → Option Nat
  | 0, _ => none
  | fuel + 1, n => if n ≤ idx then doubleTo idx fuel (n * 2) else some n

/-- A table grown for an index: twice as long until it covers it, cut to the limit, and
the old entries copied.  A loop that runs `idx + 1` rounds never stops. -/
def growTable (table : List (Option MessageAddr)) (idx : Nat) :
    Option (List (Option MessageAddr)) := do
  let n ← doubleTo idx (idx + 1) (table.length * 2)
  let n := if maxGroupCache < n then maxGroupCache else n
  pure (table.take n ++ List.replicate (n - table.length) none)

/-- A target of an egress: its interface, its table, and the addresses queued on it. -/
structure TargetQueue where
  zone : String
  addrCache : List (Option MessageAddr)
  addrs : List MessageAddr

/-- The table with room for an index. -/
def TargetQueue.room (t : TargetQueue) (idx : Nat) : Option (List (Option MessageAddr)) :=
  if t.addrCache.length ≤ idx then growTable t.addrCache idx else some t.addrCache

/-- The address a table has for an index, put in if there is none; nothing if the index
is out of range. -/
def fillEntry (table : List (Option MessageAddr)) (idx : Nat) (fresh : MessageAddr) :
    Option (MessageAddr × List (Option MessageAddr)) :=
  match table[idx]? with
  | none => none
  | some (some addr) => some (addr, table)
  | some none => some (fresh, table.set idx (some fresh))

/-- A data frame below the limit takes its address from the table. -/
def EnqueueReq.Cacheable (m : EnqueueReq) : Prop :=
  m.ctrlLabel = "" ∧ m.groupIdx.toNat < maxGroupCache

instance (m : EnqueueReq) : Decidable m.Cacheable :=
  inferInstanceAs (Decidable (_ ∧ _))

/-- One round of the loop of `enqueue` over the targets; nothing if growing does not end
or an index is out of range. -/
def TargetQueue.enqueue (m : EnqueueReq) (dst : UDPAddr) (t : TargetQueue) :
    Option TargetQueue :=
  let fresh : MessageAddr := ⟨dst.ip, dst.port, t.zone⟩
  if m.Cacheable then do
    let table ← t.room m.groupIdx.toNat
    let (addr, table) ← fillEntry table m.groupIdx.toNat fresh
    pure { t with addrCache := table, addrs := t.addrs ++ [addr] }
  else pure { t with addrs := t.addrs ++ [fresh] }

def enqueueTargets (m : EnqueueReq) (dst : UDPAddr) : List TargetQueue → Option (List TargetQueue)
  | [] => some []
  | t :: rest => do
      let first ← t.enqueue m dst
      let later ← enqueueTargets m dst rest
      pure (first :: later)

section Tables

variable {table : List (Option MessageAddr)} {idx : Nat}

theorem doubleTo_spec {fuel n : Nat} (hpos : 0 < n) (henough : idx < n + fuel) :
    ∃ m, doubleTo idx (fuel + 1) n = some m ∧ idx < m ∧ n ≤ m := by
  induction fuel generalizing n with
  | zero => exact ⟨n, by rw [doubleTo, if_neg (by omega)], henough, Nat.le_refl n⟩
  | succ fuel ih =>
      rw [doubleTo]
      split
      · obtain ⟨m, hm, hidx, hle⟩ := ih (show 0 < n * 2 by omega) (by omega)
        exact ⟨m, hm, hidx, by omega⟩
      · exact ⟨n, rfl, by omega, Nat.le_refl n⟩

/-- Growing ends, in a table within the limit that has the index and begins with the old
entries. -/
theorem growTable_spec (hpos : 0 < table.length) (hlimit : table.length ≤ maxGroupCache)
    (hidx : idx < maxGroupCache) :
    ∃ extra, growTable table idx = some (table ++ List.replicate extra none) ∧
      idx < table.length + extra ∧ table.length + extra ≤ maxGroupCache := by
  obtain ⟨m, hm, hbound, hle⟩ :=
    doubleTo_spec (show 0 < table.length * 2 by omega)
      (show idx < table.length * 2 + idx by omega)
  have hgrown : growTable table idx =
      some (table.take (min maxGroupCache m) ++
        List.replicate (min maxGroupCache m - table.length) none) := by
    rw [growTable, hm]
    change some (table.take (if maxGroupCache < m then maxGroupCache else m) ++ _) = _
    rw [show (if maxGroupCache < m then maxGroupCache else m) = min maxGroupCache m by
      split <;> omega]
  refine ⟨min maxGroupCache m - table.length, ?_, by omega, by omega⟩
  rw [hgrown, List.take_of_length_le (show table.length ≤ min maxGroupCache m by omega)]

/-- A table has entries, and no more than the limit. -/
structure TargetQueue.Sized (t : TargetQueue) : Prop where
  pos : 0 < t.addrCache.length
  limit : t.addrCache.length ≤ maxGroupCache

theorem TargetQueue.room_spec {t : TargetQueue} (hsized : t.Sized) (hidx : idx < maxGroupCache) :
    ∃ extra, t.room idx = some (t.addrCache ++ List.replicate extra none) ∧
      idx < t.addrCache.length + extra ∧ t.addrCache.length + extra ≤ maxGroupCache := by
  rw [TargetQueue.room]
  split
  · exact growTable_spec hsized.pos hsized.limit hidx
  · exact ⟨0, by simp, by omega, hsized.limit⟩

/-- The address a target's table has for an index. -/
def TargetQueue.cached (t : TargetQueue) (idx : Nat) : Option MessageAddr :=
  (t.addrCache[idx]?).join

theorem join_append_replicate (table : List (Option MessageAddr)) (extra idx : Nat) :
    ((table ++ List.replicate extra none)[idx]?).join = (table[idx]?).join := by
  rcases Nat.lt_or_ge idx table.length with hin | hout
  · rw [List.getElem?_append_left hin]
  · rw [List.getElem?_append_right hout, List.getElem?_eq_none hout, List.getElem?_replicate]
    split <;> rfl

theorem fillEntry_spec (hin : idx < table.length) (fresh : MessageAddr) :
    ∃ after, fillEntry table idx fresh = some (((table[idx]?).join).getD fresh, after) ∧
      after.length = table.length ∧
      ∀ other, (after[other]?).join =
        if other = idx then some (((table[idx]?).join).getD fresh) else (table[other]?).join := by
  rw [fillEntry]
  cases hentry : table[idx]? with
  | none => exact absurd (List.getElem?_eq_none_iff.mp hentry) (by omega)
  | some entry =>
      cases entry with
      | some addr =>
          refine ⟨table, rfl, rfl, ?_⟩
          intro other
          split
          · rename_i hsame
            rw [hsame, hentry]
            rfl
          · rfl
      | none =>
          refine ⟨table.set idx (some fresh), rfl, List.length_set, ?_⟩
          intro other
          by_cases hsame : other = idx
          · subst hsame
            rw [List.getElem?_set_self hin, if_pos rfl]
            rfl
          · rw [List.getElem?_set_ne (Ne.symm hsame), if_neg hsame]

/-- The address a request is queued with on a target, and the table after it. -/
structure TargetQueue.Took (m : EnqueueReq) (dst : UDPAddr) (t after : TargetQueue) : Prop where
  zone : after.zone = t.zone
  sized : after.Sized
  addrs : after.addrs = t.addrs ++ [if m.Cacheable then
    (t.cached m.groupIdx.toNat).getD ⟨dst.ip, dst.port, t.zone⟩ else ⟨dst.ip, dst.port, t.zone⟩]
  cached : ∀ idx, after.cached idx = if m.Cacheable ∧ idx = m.groupIdx.toNat then
    some ((t.cached m.groupIdx.toNat).getD ⟨dst.ip, dst.port, t.zone⟩) else t.cached idx

/-- Enqueueing on a target always ends, with the address its table has for the index or
the fresh one. -/
theorem TargetQueue.enqueue_spec {t : TargetQueue} (hsized : t.Sized) (m : EnqueueReq)
    (dst : UDPAddr) : ∃ after, t.enqueue m dst = some after ∧ TargetQueue.Took m dst t after := by
  by_cases hcacheable : m.Cacheable
  · obtain ⟨extra, hroom, hidx, hlimit⟩ := TargetQueue.room_spec hsized hcacheable.2
    have hpos := hsized.pos
    have hlength : (t.addrCache ++ List.replicate extra none).length =
        t.addrCache.length + extra := by
      rw [List.length_append, List.length_replicate]
    obtain ⟨after, hfill, hsame, hentries⟩ := fillEntry_spec (hlength ▸ hidx)
      ⟨dst.ip, dst.port, t.zone⟩
    simp only [join_append_replicate] at hfill hentries
    refine ⟨{ t with
      addrCache := after
      addrs := t.addrs ++ [(t.cached m.groupIdx.toNat).getD ⟨dst.ip, dst.port, t.zone⟩] },
      ?_, rfl, ⟨?_, ?_⟩, ?_, ?_⟩
    · simp only [TargetQueue.enqueue, hcacheable, ↓reduceIte, hroom]
      change (fillEntry _ _ _ >>= _) = _
      rw [hfill]
      rfl
    · change 0 < after.length
      omega
    · change after.length ≤ _
      omega
    · rw [if_pos hcacheable]
    · intro idx
      simp only [hcacheable, true_and]
      exact hentries idx
  · refine ⟨{ t with addrs := t.addrs ++ [⟨dst.ip, dst.port, t.zone⟩] }, ?_, rfl,
      ⟨hsized.pos, hsized.limit⟩, ?_, ?_⟩
    · simp only [TargetQueue.enqueue, hcacheable, ↓reduceIte]
      rfl
    · rw [if_neg hcacheable]
    · intro idx
      rw [if_neg fun both => hcacheable both.1]
      rfl

/-- The tables refine the map of `egressEnqueue`: a target that has the entries of the
map takes the same address and has the entries of the map after. -/
theorem TargetQueue.enqueue_refines {n : Nat} {zones : Fin n → String} {item : EgressItem}
    {cache : AddrCache n} {b : Batch n} {i : Fin n} {t : TargetQueue} (hsized : t.Sized)
    (hzone : t.zone = zones i) (hcache : ∀ idx, t.cached idx.toNat = cache i idx)
    (haddrs : t.addrs = (b.msgs i).map Message.addr) :
    ∃ after, t.enqueue item.req item.req.dst = some after ∧ after.Sized ∧
      after.zone = zones i ∧
      (∀ idx, after.cached idx.toNat = (egressEnqueue zones item cache b).1 i idx) ∧
      after.addrs = ((egressEnqueue zones item cache b).2.msgs i).map Message.addr := by
  obtain ⟨after, hafter, htook⟩ := TargetQueue.enqueue_spec hsized item.req item.req.dst
  refine ⟨after, hafter, htook.sized, htook.zone.trans hzone, ?_, ?_⟩
  · intro idx
    rw [htook.cached, hcache, hcache, hzone, egressEnqueue]
    have hindex : idx.toNat = item.req.groupIdx.toNat ↔ idx = item.req.groupIdx := UInt32.toNat_inj
    simp only [EnqueueReq.Cacheable, hindex]
    by_cases hcacheable : item.req.ctrlLabel = "" ∧ item.req.groupIdx.toNat < maxGroupCache
    · by_cases hsame : idx = item.req.groupIdx
      · subst hsame
        simp [hcacheable]
      · simp [hcacheable, hsame]
    · simp [hcacheable]
  · rw [htook.addrs, haddrs, hcache, hzone, egressEnqueue]
    simp only [EnqueueReq.Cacheable, List.map_append, List.map_cons, List.map_nil]
    by_cases hcacheable : item.req.ctrlLabel = "" ∧ item.req.groupIdx.toNat < maxGroupCache <;>
      simp [hcacheable]

end Tables

section Workers

variable (fw : Forwarder)

/-- What an operation does to send: it looks a group up, and it enqueues. -/
inductive SenderCall where
  | addrFor (idx : UInt32)
  | enqueue (req : EnqueueReq)

/-- The shared table by group index, of which the slots below the limit are used. -/
abbrev GroupAddrs : Type := UInt32 → Option UDPAddr

/-- A worker: the calls ahead of it, an address it has computed and not stored yet, the
address its last lookup returned, and the targets of its egress. -/
structure Sender where
  calls : List SenderCall
  storing : Option (UInt32 × UDPAddr)
  dst : Option UDPAddr
  targets : List TargetQueue

def newSender (zones : List String) (calls : List SenderCall) : Sender :=
  ⟨calls, none, none, zones.map fun zone => ⟨zone, List.replicate addrCacheInit none, []⟩⟩

/-- A data frame is enqueued with the address that was looked up, a control frame with
its own. -/
def Sender.destination (s : Sender) (req : EnqueueReq) : Option UDPAddr :=
  if req.ctrlLabel = "" then s.dst else some req.dst

/-- One step of a worker.  In `addrFor` the load and the store are steps of their own;
an `enqueue` touches nothing shared. -/
def senderStep {W : Type} (_ : W) (s : Sender) (groupAddrs : GroupAddrs) :
    Option (Sender × GroupAddrs) :=
  match s.storing with
  | some (idx, addr) =>
      some ({ s with storing := none, dst := some addr },
        Function.update groupAddrs idx (some addr))
  | none =>
      match s.calls with
      | [] => none
      | .addrFor idx :: calls =>
          if maxGroupCache ≤ idx.toNat then
            some ({ s with calls := calls, dst := some (fw.engine.addr idx fw.egressPort) },
              groupAddrs)
          else
            match groupAddrs idx with
            | some addr => some ({ s with calls := calls, dst := some addr }, groupAddrs)
            | none =>
                some ({ s with
                  calls := calls
                  storing := some (idx, fw.engine.addr idx fw.egressPort) }, groupAddrs)
      | .enqueue req :: calls => do
          let dst ← s.destination req
          let targets ← enqueueTargets req dst s.targets
          pure ({ s with calls := calls, targets := targets }, groupAddrs)

/-- The calls that send a list of requests: each data request comes after the lookup its
destination is taken from, with no other lookup between them. -/
inductive Sends : Option UInt32 → List SenderCall → List EnqueueReq → Prop where
  | done {last : Option UInt32} : Sends last [] []
  | addrFor {last : Option UInt32} {idx : UInt32} {calls : List SenderCall}
      {reqs : List EnqueueReq} (hrest : Sends (some idx) calls reqs) :
      Sends last (.addrFor idx :: calls) reqs
  | data {idx : UInt32} {req : EnqueueReq} {calls : List SenderCall} {reqs : List EnqueueReq}
      (hlabel : req.ctrlLabel = "") (hdst : req.dst = fw.addrFor idx)
      (hrest : Sends (some idx) calls reqs) :
      Sends (some idx) (.enqueue req :: calls) (req :: reqs)
  | control {last : Option UInt32} {req : EnqueueReq} {calls : List SenderCall}
      {reqs : List EnqueueReq} (hlabel : req.ctrlLabel ≠ "") (hrest : Sends last calls reqs) :
      Sends last (.enqueue req :: calls) (req :: reqs)

/-- The address of a request on a target without any table: for data the engine's address
of the group index and the egress port, for control the datagram's own destination. -/
def directAddr (zone : String) (req : EnqueueReq) : MessageAddr :=
  if req.ctrlLabel = "" then
    ⟨groupAddr fw.engine.mcPrefix fw.engine.mcGroupID req.groupIdx.toUInt16, fw.egressPort, zone⟩
  else ⟨req.dst.ip, req.dst.port, zone⟩

end Workers

section Faithful

variable {fw : Forwarder}

/-- A request whose destination is that of its index, if it is a data frame. -/
def EnqueueReq.Straight (fw : Forwarder) (req : EnqueueReq) : Prop :=
  req.ctrlLabel = "" → req.dst = fw.addrFor req.groupIdx

theorem directAddr_eq {req : EnqueueReq} (hstraight : req.Straight fw) (zone : String) :
    directAddr fw zone req = ⟨req.dst.ip, req.dst.port, zone⟩ := by
  rw [directAddr]
  split
  · rename_i hlabel
    rw [hstraight hlabel]
    rfl
  · rfl

/-- A target has been sent these requests, and its table holds direct addresses. -/
structure TargetQueue.Faithful (fw : Forwarder) (sent : List EnqueueReq) (t : TargetQueue) :
    Prop where
  sized : t.Sized
  entries : ∀ (idx : UInt32) addr, t.cached idx.toNat = some addr →
    addr = ⟨(fw.addrFor idx).ip, (fw.addrFor idx).port, t.zone⟩
  addrs : t.addrs = sent.map (directAddr fw t.zone)

theorem TargetQueue.Faithful.new (zone : String) :
    TargetQueue.Faithful fw [] ⟨zone, List.replicate addrCacheInit none, []⟩ := by
  refine ⟨⟨by simp [addrCacheInit], by simp [addrCacheInit, maxGroupCache]⟩, ?_, rfl⟩
  intro idx addr hcached
  rw [TargetQueue.cached, List.getElem?_replicate] at hcached
  split at hcached <;> cases hcached

theorem TargetQueue.Faithful.enqueue {sent : List EnqueueReq} {t : TargetQueue}
    (hfaithful : t.Faithful fw sent) {req : EnqueueReq} (hstraight : req.Straight fw) :
    ∃ after, t.enqueue req req.dst = some after ∧ after.zone = t.zone ∧
      after.Faithful fw (sent ++ [req]) := by
  obtain ⟨after, hafter, htook⟩ := TargetQueue.enqueue_spec hfaithful.sized req req.dst
  -- whatever the table has for the index, it is the fresh address
  have haddr : req.Cacheable → (t.cached req.groupIdx.toNat).getD
      ⟨req.dst.ip, req.dst.port, t.zone⟩ = ⟨req.dst.ip, req.dst.port, t.zone⟩ := by
    intro hcacheable
    cases hcached : t.cached req.groupIdx.toNat with
    | none => rfl
    | some addr =>
        rw [hfaithful.entries _ _ hcached, hstraight hcacheable.1]
        rfl
  refine ⟨after, hafter, htook.zone, htook.sized, ?_, ?_⟩
  · intro idx addr hcached
    rw [htook.cached] at hcached
    rw [htook.zone]
    split at hcached
    · rename_i hown
      rw [haddr hown.1] at hcached
      rw [← Option.some.inj hcached, UInt32.toNat_inj.mp hown.2, hstraight hown.1.1]
    · exact hfaithful.entries idx addr hcached
  · rw [htook.addrs, hfaithful.addrs, htook.zone, List.map_append, List.map_singleton,
      directAddr_eq hstraight]
    split
    · rename_i hcacheable
      rw [haddr hcacheable]
    · rfl

/-- The targets of an egress have been sent these requests. -/
def FaithfulTargets (fw : Forwarder) (zones : List String) (sent : List EnqueueReq)
    (targets : List TargetQueue) : Prop :=
  targets.map TargetQueue.zone = zones ∧ ∀ t ∈ targets, t.Faithful fw sent

theorem FaithfulTargets.enqueue {zones : List String} {sent : List EnqueueReq}
    {targets : List TargetQueue} (hfaithful : FaithfulTargets fw zones sent targets)
    {req : EnqueueReq} (hstraight : req.Straight fw) :
    ∃ after, enqueueTargets req req.dst targets = some after ∧
      FaithfulTargets fw zones (sent ++ [req]) after := by
  induction targets generalizing zones with
  | nil => exact ⟨[], rfl, hfaithful.1, by simp⟩
  | cons t rest ih =>
      obtain ⟨hzones, htargets⟩ := hfaithful
      obtain ⟨first, hfirst, hzone, hown⟩ := (htargets t List.mem_cons_self).enqueue hstraight
      obtain ⟨later, hlater, hlaterZones, hothers⟩ :=
        ih ⟨rfl, fun other hother => htargets other (List.mem_cons_of_mem t hother)⟩
      refine ⟨first :: later, ?_, ?_, ?_⟩
      · simp only [enqueueTargets, hfirst, hlater]
        rfl
      · rw [List.map_cons, hlaterZones, hzone, ← hzones, List.map_cons]
      · intro other hother
        rcases List.mem_cons.mp hother with rfl | hthere
        · exact hown
        · exact hothers other hthere

/-- The requests that are ahead in a list of calls. -/
def requestsOf (calls : List SenderCall) : List EnqueueReq :=
  calls.filterMap fun call =>
    match call with
    | .addrFor _ => none
    | .enqueue req => some req

/-- The shared table holds the addresses the engine computes. -/
def TrueAddrs (fw : Forwarder) (groupAddrs : GroupAddrs) : Prop :=
  ∀ idx addr, groupAddrs idx = some addr → addr = fw.addrFor idx

/-- What a worker holds after the lookup of an index: its address, or that address on the
way into the shared table. -/
def Holds (fw : Forwarder) (last : Option UInt32) :
    Option (UInt32 × UDPAddr) → Option UDPAddr → Prop
  | none, dst => dst = last.map fw.addrFor
  | some (idx, addr), _ => last = some idx ∧ addr = fw.addrFor idx

/-- Where a worker stands: its targets have been sent the first of its requests, and the
calls ahead send the others. -/
structure Sender.Faithful (fw : Forwarder) (zones : List String) (reqs : List EnqueueReq)
    (s : Sender) : Prop where
  straight : ∀ req ∈ reqs, req.Straight fw
  stands : ∃ last sent pending, reqs = sent ++ pending ∧ Sends fw last s.calls pending ∧
    FaithfulTargets fw zones sent s.targets ∧ Holds fw last s.storing s.dst

theorem TrueAddrs.store {groupAddrs : GroupAddrs} (htrue : TrueAddrs fw groupAddrs)
    (idx : UInt32) :
    TrueAddrs fw (Function.update groupAddrs idx (some (fw.addrFor idx))) := by
  intro other addr haddr
  by_cases hsame : other = idx
  · subst hsame
    rw [Function.update_self] at haddr
    exact (Option.some.inj haddr).symm
  · rw [Function.update_of_ne hsame] at haddr
    exact htrue other addr haddr

theorem senderStep_enqueue {W : Type} (w : W) (groupAddrs : GroupAddrs) {s : Sender}
    {req : EnqueueReq} {calls : List SenderCall} {dst : UDPAddr} {after : List TargetQueue}
    (hstoring : s.storing = none) (hcalls : s.calls = .enqueue req :: calls)
    (hdst : s.destination req = some dst) (hafter : enqueueTargets req dst s.targets = some after) :
    senderStep fw w s groupAddrs =
      some ({ s with calls := calls, targets := after }, groupAddrs) := by
  simp only [senderStep, hstoring, hcalls, hdst]
  change (enqueueTargets req dst s.targets >>= _) = _
  rw [hafter]
  rfl

/-- A worker that has sent all is through; any other takes a step, which leaves it and the
shared table as they should be. -/
theorem Sender.Faithful.advance {W : Type} (w : W) {groupAddrs : GroupAddrs}
    (htrue : TrueAddrs fw groupAddrs) {zones : List String} {reqs : List EnqueueReq} {s : Sender}
    (hs : s.Faithful fw zones reqs) :
    (s.calls = [] ∧ senderStep fw w s groupAddrs = none) ∨
      ∃ next after, senderStep fw w s groupAddrs = some (next, after) ∧ TrueAddrs fw after ∧
        next.Faithful fw zones reqs := by
  obtain ⟨calls, storing, dst, targets⟩ := s
  obtain ⟨hstraight, last, sent, pending, rfl, hsends, htargets, hholds⟩ := hs
  cases storing with
  | some entry =>
      obtain ⟨idx, addr⟩ := entry
      obtain ⟨rfl, rfl⟩ := hholds
      exact Or.inr ⟨_, _, rfl, htrue.store _,
        hstraight, _, sent, pending, rfl, hsends, htargets, rfl⟩
  | none =>
      cases hsends with
      | done => exact Or.inl ⟨rfl, rfl⟩
      | @addrFor _ idx calls _ hrest =>
          right
          by_cases hbeyond : maxGroupCache ≤ idx.toNat
          · refine ⟨_, groupAddrs, if_pos hbeyond, htrue, hstraight, _, sent, pending, rfl, hrest,
              htargets, rfl⟩
          · cases hloaded : groupAddrs idx with
            | some addr =>
                refine ⟨⟨calls, none, some addr, targets⟩, groupAddrs, ?_, htrue, hstraight,
                  _, sent, pending, rfl, hrest, htargets, ?_⟩
                · simp only [senderStep, hbeyond, ↓reduceIte, hloaded]
                · rw [htrue idx addr hloaded]
                  rfl
            | none =>
                refine ⟨⟨calls, some (idx, fw.engine.addr idx fw.egressPort), dst, targets⟩,
                  groupAddrs, ?_, htrue, hstraight, _, sent, pending, rfl, hrest, htargets,
                  rfl, rfl⟩
                simp only [senderStep, hbeyond, ↓reduceIte, hloaded]
      | @data idx req calls rest hlabel hdst hrest =>
          right
          obtain ⟨after, hafter, htargets'⟩ :=
            htargets.enqueue (hstraight req (List.mem_append_right sent List.mem_cons_self))
          have hdestination : dst = some req.dst := by
            rw [hdst]
            exact hholds
          exact ⟨_, groupAddrs,
            senderStep_enqueue w groupAddrs rfl rfl ((if_pos hlabel).trans hdestination) hafter,
            htrue, hstraight, _, sent ++ [req], rest, List.append_cons sent req rest, hrest,
            htargets', hholds⟩
      | @control _ req calls rest hlabel hrest =>
          right
          obtain ⟨after, hafter, htargets'⟩ :=
            htargets.enqueue (hstraight req (List.mem_append_right sent List.mem_cons_self))
          exact ⟨_, groupAddrs, senderStep_enqueue w groupAddrs rfl rfl (if_neg hlabel) hafter,
            htrue, hstraight, _, sent ++ [req], rest, List.append_cons sent req rest, hrest,
            htargets', hholds⟩

theorem Sends.requestsOf_eq {last : Option UInt32} {calls : List SenderCall}
    {reqs : List EnqueueReq} (hsends : Sends fw last calls reqs) : requestsOf calls = reqs := by
  induction hsends with
  | done => rfl
  | addrFor _ ih => exact ih
  | data _ _ _ ih => exact congrArg (List.cons _) ih
  | control _ _ ih => exact congrArg (List.cons _) ih

/-- No worker can disturb another: all that is shared is the table of true addresses. -/
theorem senderStep_discipline {W : Type} (fw : Forwarder) (zones : W → List String)
    (reqs : W → List EnqueueReq) :
    Discipline (senderStep fw) (TrueAddrs fw)
      (fun w s _ => s.Faithful fw (zones w) (reqs w)) (fun (_ : W) _ _ => True) where
  own := by
    intro w s next groupAddrs after htrue hs hstep
    rcases hs.advance w htrue with ⟨_, hnone⟩ | ⟨next', after', hsome, htrue', hnext⟩
    · cases hnone.symm.trans hstep
    · obtain ⟨rfl, rfl⟩ := Prod.mk.inj (Option.some.inj (hsome.symm.trans hstep))
      exact ⟨htrue', hnext, trivial⟩
  stable := fun _ _ hs _ => hs

theorem Sender.Faithful.new {zones : List String} {calls : List SenderCall}
    {reqs : List EnqueueReq} (hstraight : ∀ req ∈ reqs, req.Straight fw)
    (hsends : Sends fw none calls reqs) : (newSender zones calls).Faithful fw zones reqs := by
  refine ⟨hstraight, none, [], reqs, rfl, hsends, ⟨?_, ?_⟩, rfl⟩
  · rw [newSender, List.map_map]
    exact List.map_id zones
  · intro t ht
    obtain ⟨zone, _, rfl⟩ := List.mem_map.mp ht
    exact TargetQueue.Faithful.new zone

end Faithful

/-- A worker's targets have been sent the requests that are not ahead of it, each to its
direct address in the target's zone, and any of its tables can be grown for any index. -/
structure Sender.Direct (fw : Forwarder) (zones : List String) (reqs : List EnqueueReq)
    (s : Sender) : Prop where
  queued : ∃ sent, reqs = sent ++ requestsOf s.calls ∧
    s.targets.map (fun t => (t.zone, t.addrs)) =
      zones.map fun zone => (zone, sent.map (directAddr fw zone))
  grows : ∀ t ∈ s.targets, ∀ idx < maxGroupCache, ∃ extra,
    growTable t.addrCache idx = some (t.addrCache ++ List.replicate extra none) ∧
      idx < t.addrCache.length + extra ∧ t.addrCache.length + extra ≤ maxGroupCache

theorem Sender.Faithful.direct {fw : Forwarder} {zones : List String} {reqs : List EnqueueReq}
    {s : Sender} (hs : s.Faithful fw zones reqs) : s.Direct fw zones reqs := by
  obtain ⟨_, last, sent, pending, hreqs, hsends, ⟨hzones, htargets⟩, _⟩ := hs
  refine ⟨⟨sent, by rw [hreqs, hsends.requestsOf_eq], ?_⟩, ?_⟩
  · rw [← hzones, List.map_map]
    apply List.map_congr_left
    intro t ht
    exact congrArg (Prod.mk t.zone) (htargets t ht).addrs
  · intro t ht idx hidx
    exact growTable_spec (htargets t ht).sized.pos (htargets t ht).sized.limit hidx

theorem Aimed.straight {fw : Forwarder} {groups : List UInt16} {port : Nat} {req : EnqueueReq}
    (haimed : Aimed fw groups port req) : req.Straight fw := by
  intro hlabel
  cases haimed with
  | data _ hdst => exact hdst
  | control _ hnonempty _ => exact absurd hlabel hnonempty

/-- Every operation aims what it queues at the address of its index.  Workers that send
such requests, in any number and order of steps, queue them on each target with that
address and the target's zone, and none is ever stuck. -/
theorem destinations_direct {W : Type} [DecidableEq W] {env : Env} {groupText : UInt16 → String}
    (htext : ∀ idx, groupText idx ≠ "") {fw : Forwarder} {reqs : W → List EnqueueReq}
    (hemitted : ∀ w, ∀ req ∈ reqs w, ∃ op st, req ∈ EmitOp.queued env groupText fw op st)
    {calls : W → List SenderCall} (hsends : ∀ w, Sends fw none (calls w) (reqs w))
    (zones : W → List String) (schedule : List W) (w : W) :
    let c := Config.run (senderStep fw) ⟨fun _ => none, fun w => newSender (zones w) (calls w)⟩
      schedule
    (c.pos w).Direct fw (zones w) (reqs w) ∧
      ((c.pos w).calls = [] ∨ (senderStep fw w (c.pos w) c.shared).isSome) ∧
      ∀ op st, ∀ req ∈ EmitOp.queued env groupText fw op st,
        Aimed fw op.controlGroups (op.controlPort fw) req := by
  intro c
  have hstart : Config.Stands (TrueAddrs fw) (fun w s _ => s.Faithful fw (zones w) (reqs w))
      ⟨fun _ => none, fun w => newSender (zones w) (calls w)⟩ := by
    refine ⟨fun _ _ hnone => absurd hnone (by simp), fun w => Sender.Faithful.new ?_ (hsends w)⟩
    intro req hreq
    obtain ⟨op, st, hqueued⟩ := hemitted w req hreq
    exact (EmitOp.aimed htext hqueued).straight
  obtain ⟨htrue, hstands⟩ := (senderStep_discipline fw zones reqs).run hstart schedule
  refine ⟨(hstands w).direct, ?_, fun op st req hreq => EmitOp.aimed htext hreq⟩
  rcases (hstands w).advance w htrue with ⟨hdone, _⟩ | ⟨next, after, hstep, _⟩
  · exact Or.inl hdone
  · exact Or.inr (Option.isSome_iff_exists.mpr ⟨_, hstep⟩)

section Sample

open Reference

/-- A bundle without members for a group. -/
def groupBundle (high low : UInt8) : Bytes :=
  [0xE3, 0xE1, 0xF3, 0xE8] ++ List.replicate 52 0 ++ [high, low] ++ List.replicate 8 0

def relayed (high low : UInt8) (group : UInt32) : EnqueueReq :=
  enqueueData (groupBundle high low) (forwarder.addrFor group) group

/-- One worker relays two bundles of group 100 and an announce, the other one of group 100
and one of group 9000, which no table has room for. -/
def sampleReqs : Bool → List EnqueueReq
  | true => [relayed 0 100 100, relayed 0 100 100,
      enqueueControl [1] (forwarder.controlAddr groupSubtreeGroupAnnounce) "announce"]
  | false => [relayed 0 100 100, relayed 0x23 0x28 9000]

def sampleCalls : Bool → List SenderCall
  | true => [.addrFor 100, .enqueue (relayed 0 100 100), .addrFor 100,
      .enqueue (relayed 0 100 100), .enqueue
        (enqueueControl [1] (forwarder.controlAddr groupSubtreeGroupAnnounce) "announce")]
  | false => [.addrFor 100, .enqueue (relayed 0 100 100), .addrFor 9000,
      .enqueue (relayed 0x23 0x28 9000)]

theorem mem_queued_relayed (high low : UInt8) (group : UInt32)
    (hqueued : EmitOp.queued Reference.env (fun _ => "announce") forwarder
      (.processBundle (groupBundle high low)) state = [relayed high low group]) :
    ∃ op st, relayed high low group ∈
      EmitOp.queued Reference.env (fun _ => "announce") forwarder op st :=
  ⟨_, state, hqueued ▸ List.mem_singleton_self _⟩

/-- Both workers look group 100 up before either has stored it. -/
theorem destinations_direct_sample :
    let c := Config.run (senderStep forwarder)
      ⟨fun _ => none, fun w => newSender ["eth0", "eth1"] (sampleCalls w)⟩
      [true, false, true, false, true, false, true, false, true, false, true]
    ∀ w, (c.pos w).Direct forwarder ["eth0", "eth1"] (sampleReqs w) ∧
      requestsOf (c.pos w).calls = [] := by
  intro c w
  have hemitted : ∀ w, ∀ req ∈ sampleReqs w, ∃ op st,
      req ∈ EmitOp.queued Reference.env (fun _ => "announce") forwarder op st := by
    have hsmall := mem_queued_relayed 0 100 100 (by decide +kernel)
    have hlarge := mem_queued_relayed 0x23 0x28 9000 (by decide +kernel)
    intro w req hreq
    cases w with
    | true =>
        simp only [sampleReqs, List.mem_cons, List.not_mem_nil, or_false] at hreq
        rcases hreq with rfl | rfl | rfl
        · exact hsmall
        · exact hsmall
        · exact ⟨.forwardControl [1] groupSubtreeGroupAnnounce 9001, state, by decide +kernel⟩
    | false =>
        simp only [sampleReqs, List.mem_cons, List.not_mem_nil, or_false] at hreq
        rcases hreq with rfl | rfl
        · exact hsmall
        · exact hlarge
  have hsends : ∀ w, Sends forwarder none (sampleCalls w) (sampleReqs w) := by
    intro w
    cases w with
    | true =>
        exact .addrFor (.data rfl rfl (.addrFor (.data rfl rfl
          (.control (show "announce" ≠ "" by decide) .done))))
    | false => exact .addrFor (.data rfl rfl (.addrFor (.data rfl rfl .done)))
  have htext : ∀ _ : UInt16, "announce" ≠ "" := fun _ => by decide
  refine ⟨(destinations_direct htext hemitted hsends (fun _ => ["eth0", "eth1"]) _ w).1, ?_⟩
  cases w <;> decide +kernel

end Sample

end ShardProxy
