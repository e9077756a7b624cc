/-
The BEEF ingress budgets of one door: a token bucket, the per-source table and
the two tiers `allow` charges.  Token counts are exact rationals; instants are
nanoseconds, with zero for the unset time.
-/
import ShardProxy.Wire

namespace ShardProxy

open ByteField

/-- An instant in nanoseconds; zero is the zero `time.Time`. -/
abbrev Time := Nat

/-- The seconds from `earlier` to `later`, saturating as a 64-bit duration does. -/
def elapsedSeconds (later earlier : Time) : Rat :=
  let span : Int := (later : Int) - (earlier : Int)
  let duration : Int := max (-(2 ^ 63)) (min (2 ^ 63 - 1) span)
  (duration : Rat) / 1000000000

/-- A token bucket; rate zero means unlimited. -/
structure Bucket where
  rate : Rat
  burst : Rat
  tokens : Rat
  last : Time
deriving DecidableEq

def newBucket (ratePerSec burst : Rat) : Bucket :=
  if ratePerSec ≤ 0 then ⟨0, 0, 0, 0⟩
  else
    -- A burst below the sustained rate is raised to it.
    let depth := if burst < ratePerSec then ratePerSec else burst
    ⟨ratePerSec, depth, depth, 0⟩

/-- Refill for the time since the last call; a clock that stepped back refills
nothing and keeps `last`. -/
def Bucket.refill (b : Bucket) (now : Time) : Bucket :=
  let b := if b.last = 0 then { b with last := now } else b
  let elapsed := elapsedSeconds now b.last
  if 0 < elapsed then
    { b with tokens := min (b.tokens + elapsed * b.rate) b.burst, last := now }
  else b

/-- Take `n` tokens if they are there; a request deeper than the bucket asks
for a full bucket. -/
def Bucket.allowN (b : Bucket) (now : Time) (n : Rat) : Bool × Bucket :=
  if b.rate ≤ 0 then (true, b)
  else
    let b := b.refill now
    let n := min n b.burst
    if b.tokens < n then (false, b) else (true, { b with tokens := b.tokens - n })

structure BEEFRateConfig where
  sourceObjectsPerSec : Rat
  sourceBytesPerSec : Rat
  sourcePrefixBits : Int
  planeObjectsPerSec : Rat
  planeBytesPerSec : Rat
  maxTrackedSources : Int
deriving DecidableEq

structure SrcBuckets where
  obj : Bucket
  byt : Bucket
  seen : Time
deriving DecidableEq

/-- The limiter.  The per-source table is an association list in insertion
order; the order the code walks it in is the environment's. -/
structure BEEFLimiter where
  cfg : BEEFRateConfig
  planeObj : Bucket
  planeByt : Bucket
  srcs : List (String × SrcBuckets)
deriving DecidableEq

def newBEEFLimiter (cfg : BEEFRateConfig) : BEEFLimiter :=
  let bits := if cfg.sourcePrefixBits ≤ 0 ∨ 128 < cfg.sourcePrefixBits then 64
    else cfg.sourcePrefixBits
  let tracked := if cfg.maxTrackedSources ≤ 0 then 65536 else cfg.maxTrackedSources
  ⟨{ cfg with sourcePrefixBits := bits, maxTrackedSources := tracked },
    newBucket cfg.planeObjectsPerSec cfg.planeObjectsPerSec,
    newBucket cfg.planeBytesPerSec cfg.planeBytesPerSec, []⟩

/-- The limiter of a door with no budgets. -/
def unlimited : BEEFLimiter :=
  newBEEFLimiter ⟨0, 0, 0, 0, 0, 0⟩

def BEEFLimiter.enabled (l : BEEFLimiter) : Bool :=
  0 < l.cfg.sourceObjectsPerSec || 0 < l.cfg.sourceBytesPerSec ||
    0 < l.cfg.planeObjectsPerSec || 0 < l.cfg.planeBytesPerSec

inductive RateDecision where
  | allow
  | denySource
  | denyPlane
deriving DecidableEq

def ipv4InIPv6 : Bytes := [0, 0, 0, 0, 0, 0, 0, 0, 0, 0, 0xFF, 0xFF]

/-- `net.IP.To4`: the four bytes of an IPv4 or IPv4-mapped address. -/
def to4 (ip : Bytes) : Option Bytes :=
  if ip.length = 4 then some ip
  else if ip.length = 16 ∧ ip.take 12 = ipv4InIPv6 then some (ip.drop 12)
  else none

/-- `net.IP.To16`: the sixteen-byte form of an address of a valid length. -/
def to16 (ip : Bytes) : Option Bytes :=
  if ip.length = 4 then some (ipv4InIPv6 ++ ip)
  else if ip.length = 16 then some ip
  else none

/-- Byte `i` of a mask of `bits` leading ones. -/
def maskByte (bits i : Nat) : UInt8 :=
  if 8 * i + 8 ≤ bits then 0xFF
  else if bits ≤ 8 * i then 0
  else 0xFF <<< (UInt8.ofNat (8 * i + 8 - bits))

/-- `ip.Mask(net.CIDRMask(bits, …))` on an address of the mask's length. -/
def maskIP (ip : Bytes) (bits : Nat) : Bytes :=
  ip.mapIdx fun i byte => byte &&& maskByte bits i

/-- An address without an IP, and with its zone. -/
def zoneText (zone : String) : String :=
  if zone = "" then "" else "%" ++ zone

/-- `net.JoinHostPort`, which brackets a host with colons. -/
def joinHostPort (host : String) (port : Nat) : String :=
  (if ':' ∈ host.toList then "[" ++ host ++ "]" else host) ++ ":" ++ toString port

/-- `src.String()` for an address without an IP. -/
def NetAddr.text : NetAddr → String
  | .udp _ port zone => joinHostPort (zoneText zone) port
  | .tcp _ port zone => joinHostPort (zoneText zone) port
  | .ip _ zone => zoneText zone
  | .other text => text

section Limiter

variable (env : Env)

def addrToIP : NetAddr → Option Bytes
  | .udp ip _ _ => ip
  | .tcp ip _ _ => ip
  | .ip ip _ => ip
  | .other text => env.parseAddr text

/-- The budget key of a source: its address masked to the prefix length, or
the text of an address that carries no IP. -/
def sourceKey (src : NetAddr) (prefixBits : Int) : String :=
  match addrToIP env src with
  | none => src.text
  | some ip =>
      match to4 ip with
      | some v4 =>
          let bits := prefixBits - 96
          let bits := if bits < 0 ∨ 32 < bits then 32 else bits
          env.ipString (maskIP v4 bits.toNat)
      -- Masking an address of no valid length gives the nil address.
      | none => env.ipString (if ip.length = 16 then maskIP ip prefixBits.toNat else [])

/-- Walk the table for the least recently charged source; the empty key and
the zero time stand for none found yet. -/
def oldestSource (srcs : List (String × SrcBuckets)) (keys : List String) :
    String × Time :=
  keys.foldl (fun (oldestKey, oldest) key =>
    match srcs.lookup key with
    | none => (oldestKey, oldest)
    | some sb => if oldest = 0 ∨ sb.seen < oldest then (key, sb.seen) else (oldestKey, oldest))
    ("", 0)

def BEEFLimiter.evictOldest (l : BEEFLimiter) : BEEFLimiter :=
  let (oldestKey, _) := oldestSource l.srcs (env.mapOrder (l.srcs.map Prod.fst))
  if oldestKey ≠ "" then
    { l with srcs := l.srcs.filter fun entry => entry.1 ≠ oldestKey }
  else l

/-- Store a source's buckets, in place when the key is tracked already. -/
def BEEFLimiter.putSource (l : BEEFLimiter) (key : String) (sb : SrcBuckets) :
    BEEFLimiter :=
  if (l.srcs.lookup key).isSome then
    { l with srcs := l.srcs.map fun entry => if entry.1 = key then (key, sb) else entry }
  else { l with srcs := l.srcs ++ [(key, sb)] }

/-- The buckets of a source and the limiter that tracks it, evicting the
oldest when a new key meets a full table. -/
def BEEFLimiter.track (l : BEEFLimiter) (key : String) : SrcBuckets × BEEFLimiter :=
  match l.srcs.lookup key with
  | some sb => (sb, l)
  | none =>
      let l := if l.cfg.maxTrackedSources ≤ (l.srcs.length : Int) then l.evictOldest env
        else l
      (⟨newBucket l.cfg.sourceObjectsPerSec l.cfg.sourceObjectsPerSec,
        newBucket l.cfg.sourceBytesPerSec l.cfg.sourceBytesPerSec, 0⟩, l)

def BEEFLimiter.allowSource (l : BEEFLimiter) (src : NetAddr) (n : Nat) (now : Time) :
    Bool × BEEFLimiter :=
  if l.cfg.sourceObjectsPerSec ≤ 0 ∧ l.cfg.sourceBytesPerSec ≤ 0 then (true, l)
  else
    let key := sourceKey env src l.cfg.sourcePrefixBits
    let (sb, l) := l.track env key
    let sb := { sb with seen := now }
    let (objOK, obj) := sb.obj.allowN now 1
    -- The byte bucket is not touched when the object bucket refused.
    if objOK then
      let (bytOK, byt) := sb.byt.allowN now n
      (bytOK, l.putSource key { sb with obj := obj, byt := byt })
    else (false, l.putSource key { sb with obj := obj })

/-- Charge one object of `n` bytes to its source and, when that permits, to
the whole plane.  No source means relay traffic, which is never limited. -/
def BEEFLimiter.allow (l : BEEFLimiter) (src : Option NetAddr) (n : Nat) (now : Time) :
    RateDecision × BEEFLimiter :=
  match src with
  | none => (.allow, l)
  | some src =>
      if !l.enabled then (.allow, l)
      else
        let (sourceOK, l) := l.allowSource env src n now
        if !sourceOK then (.denySource, l)
        else
          let (objOK, planeObj) := l.planeObj.allowN now 1
          let l := { l with planeObj := planeObj }
          if !objOK then (.denyPlane, l)
          else
            let (bytOK, planeByt) := l.planeByt.allowN now n
            (if bytOK then .allow else .denyPlane, { l with planeByt := planeByt })

end Limiter

end ShardProxy
