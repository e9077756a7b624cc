/-
The table of sources at a door, over any sequence of requests.  It is walked in an
order of its own whenever it is full and a new source comes, and the source that was
charged longest ago makes room.  The walk starts from the empty key and the zero time,
so it is right as long as no source has that key and no charge that time.
-/
import ShardProxy.SourceFairness

namespace ShardProxy

open ByteField

/-- An object at a door, and the order in which the table is walked should it be. -/
structure SourceCall where
  src : NetAddr
  size : Nat
  now : Time
  order : List String → List String
  order_perm : ∀ keys, (order keys).Perm keys

def Env.walking (env : Env) (call : SourceCall) : Env :=
  { env with mapOrder := call.order, mapOrder_perm := call.order_perm }

def BEEFLimiter.after (env : Env) (l : BEEFLimiter) (calls : List SourceCall) : BEEFLimiter :=
  calls.foldl (fun l call =>
    (l.allow (env.walking call) (some call.src) call.size call.now).2) l

def BEEFLimiter.tracked (l : BEEFLimiter) : List String :=
  l.srcs.map Prod.fst

/-- When a source was last charged; zero for never. -/
def chargedAt (keyOf : NetAddr → String) (calls : List SourceCall) (key : String) : Time :=
  calls.foldl (fun time call => if keyOf call.src = key then call.now else time) 0

/-- A UDP or TCP address with an IP. -/
inductive CarriesIP : NetAddr → Prop where
  | udp (ip : Bytes) (port : Nat) (zone : String) : CarriesIP (.udp (some ip) port zone)
  | tcp (ip : Bytes) (port : Nat) (zone : String) : CarriesIP (.tcp (some ip) port zone)

section Walk

variable {srcs : List (String × SrcBuckets)} {keys : List String}

/-- A source of a list that was charged no later than any of it. -/
structure Oldest (srcs : List (String × SrcBuckets)) (keys : List String)
    (found : String × Time) : Prop where
  mem : found.1 ∈ keys
  seen : (srcs.lookup found.1).map SrcBuckets.seen = some found.2
  set : found.2 ≠ 0
  least : ∀ key ∈ keys, ∀ sb, srcs.lookup key = some sb → found.2 ≤ sb.seen

theorem oldestSource_append (srcs : List (String × SrcBuckets)) (keys : List String)
    {key : String} {sb : SrcBuckets} (hlookup : srcs.lookup key = some sb) :
    oldestSource srcs (keys ++ [key]) =
      if (oldestSource srcs keys).2 = 0 ∨ sb.seen < (oldestSource srcs keys).2 then (key, sb.seen)
      else oldestSource srcs keys := by
  rw [oldestSource, List.foldl_append, List.foldl_cons, List.foldl_nil, hlookup]
  rfl

/-- The walk finds an oldest source in whatever order it goes. -/
theorem oldestSource_oldest
    (hseen : ∀ key ∈ keys, ∃ sb, srcs.lookup key = some sb ∧ sb.seen ≠ 0) (hsome : keys ≠ []) :
    Oldest srcs keys (oldestSource srcs keys) := by
  induction keys using List.reverseRecOn with
  | nil => exact absurd rfl hsome
  | append_singleton keys key ih =>
      obtain ⟨sb, hlookup, hset⟩ := hseen key (by simp)
      have hown : (srcs.lookup key).map SrcBuckets.seen = some sb.seen := by rw [hlookup]; rfl
      rw [oldestSource_append srcs keys hlookup]
      by_cases hfirst : keys = []
      · subst hfirst
        rw [if_pos (show (oldestSource srcs []).2 = 0 ∨ _ from Or.inl rfl)]
        refine ⟨by simp, hown, hset, ?_⟩
        intro other hother found hfound
        rw [List.nil_append, List.mem_singleton] at hother
        rw [hother, hlookup] at hfound
        exact le_of_eq (congrArg SrcBuckets.seen (Option.some.inj hfound))
      · obtain ⟨hmem, hkept, hold, hleast⟩ :=
          ih (fun other hother => hseen other (List.mem_append_left _ hother)) hfirst
        -- The new key takes over only if it was charged earlier.
        have hboth : ∀ time, time ≤ sb.seen → time ≤ (oldestSource srcs keys).2 →
            ∀ other ∈ keys ++ [key], ∀ found, srcs.lookup other = some found →
              time ≤ found.seen := by
          intro time hnew hbefore other hother found hfound
          rcases List.mem_append.mp hother with hearlier | hlast
          · exact hbefore.trans (hleast other hearlier found hfound)
          · rw [List.mem_singleton.mp hlast, hlookup] at hfound
            rw [← Option.some.inj hfound]
            exact hnew
        by_cases htakes : (oldestSource srcs keys).2 = 0 ∨ sb.seen < (oldestSource srcs keys).2
        · rw [if_pos htakes]
          exact ⟨by simp, hown, hset, hboth _ (le_refl _) (htakes.resolve_left hold).le⟩
        · rw [if_neg htakes]
          have hlater : (oldestSource srcs keys).2 ≤ sb.seen :=
            not_lt.mp fun hless => htakes (Or.inr hless)
          exact ⟨List.mem_append_left _ hmem, hkept, hold, hboth _ hlater (le_refl _)⟩

end Walk

/-- What the table is after a sequence of charges: no key twice, no more keys than the
limit, and each entry dated by the last charge of its key. -/
structure BEEFLimiter.Table (l : BEEFLimiter) (charged : String → Time) : Prop where
  limit : 0 < l.cfg.maxTrackedSources
  room : (l.tracked.length : Int) ≤ l.cfg.maxTrackedSources
  nodup : l.tracked.Nodup
  named : "" ∉ l.tracked
  seen : ∀ key sb, l.srcs.lookup key = some sb → sb.seen = charged key ∧ sb.seen ≠ 0

/-- What a charge of a key does to the keys of a table. -/
inductive TableStep (limit : Int) (charged : String → Time) (key : String) :
    List String → List String → Prop where
  | again {keys : List String} (hthere : key ∈ keys) : TableStep limit charged key keys keys
  | joins {keys : List String} (hnew : key ∉ keys) (hroom : (keys.length : Int) < limit) :
      TableStep limit charged key keys (keys ++ [key])
  | evicts {keys : List String} {gone : String} (hnew : key ∉ keys)
      (hfull : (keys.length : Int) = limit) (hgone : gone ∈ keys)
      (hleast : ∀ other ∈ keys, charged gone ≤ charged other) :
      TableStep limit charged key keys (keys.erase gone ++ [key])

section Steps

variable {env : Env} {l : BEEFLimiter} {charged : String → Time} {key : String}

theorem BEEFLimiter.mem_tracked : key ∈ l.tracked ↔ ∃ sb, l.srcs.lookup key = some sb := by
  rw [BEEFLimiter.tracked, ← AssocList.isSome_lookup_iff, Option.isSome_iff_exists]

/-- Someone goes from a table that is not empty, and it is an oldest one. -/
theorem BEEFLimiter.Table.evictOldest (htable : l.Table charged) (hsome : l.tracked ≠ [])
    (env : Env) : ∃ gone ∈ l.tracked, (∀ other ∈ l.tracked, charged gone ≤ charged other) ∧
      (l.evictOldest env).tracked = l.tracked.erase gone := by
  have hperm : (env.mapOrder l.tracked).Perm l.tracked := env.mapOrder_perm l.tracked
  have hfound : Oldest l.srcs (env.mapOrder l.tracked)
      (oldestSource l.srcs (env.mapOrder l.tracked)) := by
    refine oldestSource_oldest ?_ fun hnil => hsome (hnil ▸ hperm).nil_eq.symm
    intro key hkey
    obtain ⟨sb, hlookup⟩ := BEEFLimiter.mem_tracked.mp (hperm.mem_iff.mp hkey)
    exact ⟨sb, hlookup, (htable.seen key sb hlookup).2⟩
  have hmem := hperm.mem_iff.mp hfound.mem
  refine ⟨_, hmem, ?_, ?_⟩
  · intro other hother
    obtain ⟨sb, hlookup⟩ := BEEFLimiter.mem_tracked.mp hother
    obtain ⟨gone, hgone⟩ := BEEFLimiter.mem_tracked.mp hmem
    have hdate := hfound.seen
    rw [hgone, Option.map_some, Option.some.injEq] at hdate
    rw [← (htable.seen _ gone hgone).1, ← (htable.seen other sb hlookup).1, hdate]
    exact hfound.least other (hperm.mem_iff.mpr hother) sb hlookup
  · have hnamed : (oldestSource l.srcs (env.mapOrder l.tracked)).1 ≠ "" :=
      fun hempty => htable.named (hempty ▸ hmem)
    rw [htable.nodup.erase_eq_filter, BEEFLimiter.evictOldest]
    simp only [BEEFLimiter.tracked] at hnamed ⊢
    rw [if_pos hnamed, List.filter_map]
    apply congrArg (List.map Prod.fst)
    apply List.filter_congr
    intro entry _
    simp only [Function.comp_apply, bne, decide_not]
    rfl

theorem BEEFLimiter.lookup_of_new (hnew : key ∉ l.tracked) : l.srcs.lookup key = none := by
  rw [← Option.not_isSome_iff_eq_none, AssocList.isSome_lookup_iff]
  exact hnew

/-- Charging a key adds it to a table, and takes one key out if there is no room. -/
theorem BEEFLimiter.Table.charge_keys (htable : l.Table charged) (env : Env) (key : String)
    (sb : SrcBuckets) :
    TableStep l.cfg.maxTrackedSources charged key l.tracked
      ((l.track env key).2.putSource key sb).tracked := by
  rw [BEEFLimiter.tracked, BEEFLimiter.tracked, BEEFLimiter.putSource_keys, BEEFLimiter.track]
  by_cases hthere : key ∈ l.tracked
  · obtain ⟨found, hlookup⟩ := BEEFLimiter.mem_tracked.mp hthere
    rw [hlookup]
    rw [BEEFLimiter.tracked] at hthere
    rw [if_pos hthere]
    exact .again hthere
  · rw [BEEFLimiter.lookup_of_new hthere]
    rw [BEEFLimiter.tracked] at hthere
    by_cases hfull : l.cfg.maxTrackedSources ≤ (l.srcs.length : Int)
    · have hlength : (l.tracked.length : Int) = l.cfg.maxTrackedSources := by
        have hroom := htable.room
        rw [BEEFLimiter.tracked, List.length_map] at hroom ⊢
        exact le_antisymm hroom hfull
      have hsome : l.tracked ≠ [] := by
        intro hnil
        have hlimit := htable.limit
        rw [← hlength, hnil] at hlimit
        exact lt_irrefl _ hlimit
      obtain ⟨gone, hgone, hleast, hleft⟩ := htable.evictOldest hsome env
      simp only [BEEFLimiter.tracked] at hgone hleast hleft hlength
      rw [if_pos hfull, hleft, if_neg fun hmem => hthere (List.mem_of_mem_erase hmem)]
      exact .evicts hthere hlength hgone hleast
    · rw [if_neg hfull, if_neg hthere]
      refine .joins hthere ?_
      rw [List.length_map]
      exact not_le.mp hfull

variable {limit : Int} {keys keys' : List String} {other : String}

theorem TableStep.mem (hstep : TableStep limit charged key keys keys') (hother : other ∈ keys') :
    other = key ∨ other ∈ keys := by
  cases hstep with
  | again hthere => exact Or.inr hother
  | joins hnew hroom =>
      rcases List.mem_append.mp hother with hold | hlast
      · exact Or.inr hold
      · exact Or.inl (List.mem_singleton.mp hlast)
  | evicts hnew hfull hgone hleast =>
      rcases List.mem_append.mp hother with hold | hlast
      · exact Or.inr (List.mem_of_mem_erase hold)
      · exact Or.inl (List.mem_singleton.mp hlast)

theorem TableStep.nodup (hstep : TableStep limit charged key keys keys') (hnodup : keys.Nodup) :
    keys'.Nodup := by
  have hadd : ∀ rest : List String, rest.Nodup → key ∉ rest → (rest ++ [key]).Nodup :=
    fun rest hrest hnew => hrest.append (List.nodup_singleton _) (List.disjoint_singleton.mpr hnew)
  cases hstep with
  | again hthere => exact hnodup
  | joins hnew hroom => exact hadd _ hnodup hnew
  | evicts hnew hfull hgone hleast =>
      exact hadd _ (hnodup.erase _) fun hmem => hnew (List.mem_of_mem_erase hmem)

theorem TableStep.length (hstep : TableStep limit charged key keys keys')
    (hroom : (keys.length : Int) ≤ limit) : (keys'.length : Int) ≤ limit := by
  cases hstep with
  | again hthere => exact hroom
  | joins hnew hless =>
      rw [List.length_append, List.length_singleton]
      omega
  | evicts hnew hfull hgone hleast =>
      have hsome := List.length_pos_of_mem hgone
      rw [List.length_append, List.length_singleton, List.length_erase_of_mem hgone]
      omega

/-- Who is missing afterwards is the one that was evicted. -/
theorem TableStep.lost (hstep : TableStep limit charged key keys keys') {gone : String}
    (hgone : gone ∈ keys) (hlost : gone ∉ keys') :
    key ∉ keys ∧ (keys.length : Int) = limit ∧
      (∀ other ∈ keys, charged gone ≤ charged other) ∧
      ∀ other ∈ keys, other ≠ gone → other ∈ keys' := by
  cases hstep with
  | again hthere => exact absurd hgone hlost
  | joins hnew hroom => exact absurd (List.mem_append_left _ hgone) hlost
  | @evicts victim hnew hfull hvictim hleast =>
      have hsame : gone = victim := by
        by_contra hne
        exact hlost (List.mem_append_left _ ((List.mem_erase_of_ne hne).mpr hgone))
      subst hsame
      refine ⟨hnew, hfull, hleast, ?_⟩
      intro other hother hne
      exact List.mem_append_left _ ((List.mem_erase_of_ne hne).mpr hother)

/-- A new key at a full table takes someone's place. -/
theorem TableStep.full (hstep : TableStep limit charged key keys keys') (hnodup : keys.Nodup)
    (hnew : key ∉ keys) (hfull : (keys.length : Int) = limit) : ∃ gone ∈ keys, gone ∉ keys' := by
  cases hstep with
  | again hthere => exact absurd hthere hnew
  | joins hnew hroom => exact absurd hfull hroom.ne
  | @evicts victim _ _ hvictim hleast =>
      refine ⟨victim, hvictim, fun hmem => ?_⟩
      rcases List.mem_append.mp hmem with hold | hlast
      · exact hnodup.not_mem_erase hold
      · exact hnew (List.mem_singleton.mp hlast ▸ hvictim)

end Steps

section Calls

variable {env : Env} {l : BEEFLimiter} {charged : String → Time} {src : NetAddr} {n : Nat}
variable {now : Time}

theorem SrcBuckets.charge_seen (sb : SrcBuckets) (n : Nat) (now : Time) :
    (sb.charge n now).2.seen = now := by
  rw [SrcBuckets.charge]
  split <;> rfl

/-- A door whose sources are not metered has nothing to do with the table. -/
theorem BEEFLimiter.allow_free (hfree : l.SourcesFree) :
    (l.allow env (some src) n now).2.srcs = l.srcs := by
  cases henabled : l.enabled with
  | false => rw [BEEFLimiter.allow_disabled henabled]
  | true =>
      rw [(BEEFLimiter.allow_srcs henabled env src n now).1, BEEFLimiter.allowSource_free hfree]

theorem BEEFLimiter.enabled_of_metered (hfree : ¬ l.SourcesFree) : l.enabled = true := by
  rcases Bool.eq_false_or_eq_true l.enabled with htrue | hoff
  · exact htrue
  · exact absurd (BEEFLimiter.not_enabled hoff).1 hfree

/-- What a request does to the table of a door that meters its sources. -/
theorem BEEFLimiter.allow_metered (hfree : ¬ l.SourcesFree) :
    (l.allow env (some src) n now).2.srcs =
      ((l.track env (l.keyOf env src)).2.putSource (l.keyOf env src)
        ((l.sourceBuckets (l.keyOf env src)).charge n now).2).srcs := by
  rw [(BEEFLimiter.allow_srcs (enabled_of_metered hfree) env src n now).1,
    BEEFLimiter.allowSource_eq hfree, BEEFLimiter.track_fst]

theorem BEEFLimiter.Table.allow_step (htable : l.Table charged) (hfree : ¬ l.SourcesFree) :
    TableStep l.cfg.maxTrackedSources charged (l.keyOf env src) l.tracked
      (l.allow env (some src) n now).2.tracked := by
  have hkeys : (l.allow env (some src) n now).2.tracked = List.map Prod.fst _ :=
    congrArg (List.map Prod.fst) (BEEFLimiter.allow_metered hfree)
  rw [hkeys]
  exact htable.charge_keys env (l.keyOf env src) _

theorem BEEFLimiter.Table.allow (htable : l.Table charged) (hfree : ¬ l.SourcesFree)
    (hkey : l.keyOf env src ≠ "") (hnow : now ≠ 0) :
    (l.allow env (some src) n now).2.Table (Function.update charged (l.keyOf env src) now) := by
  have hstep : TableStep _ _ _ _ (l.allow env (some src) n now).2.tracked :=
    htable.allow_step hfree
  have hcfg := l.allow_cfg env (some src) n now
  refine ⟨hcfg ▸ htable.limit, hcfg ▸ hstep.length htable.room, hstep.nodup htable.nodup, ?_, ?_⟩
  · intro hempty
    rcases hstep.mem hempty with hself | hold
    · exact hkey hself.symm
    · exact htable.named hold
  · intro other sb hlookup
    rw [BEEFLimiter.allow_metered hfree] at hlookup
    by_cases hself : other = l.keyOf env src
    · subst hself
      rw [BEEFLimiter.lookup_putSource_self, Option.some.injEq] at hlookup
      rw [← hlookup, SrcBuckets.charge_seen, Function.update_self]
      exact ⟨rfl, hnow⟩
    · rw [BEEFLimiter.lookup_putSource_ne hself] at hlookup
      rw [Function.update_of_ne hself]
      exact htable.seen other sb (BEEFLimiter.lookup_track hlookup)

/-- With room for every key a table only grows. -/
theorem BEEFLimiter.Roomy.allow_tracked {keys : Finset String} (hroomy : l.Roomy keys)
    (hfree : ¬ l.SourcesFree) (hkey : l.keyOf env src ∈ keys) {other : String}
    (hother : other = l.keyOf env src ∨ other ∈ l.tracked) :
    other ∈ (l.allow env (some src) n now).2.tracked := by
  rw [BEEFLimiter.tracked] at hother ⊢
  rw [BEEFLimiter.allow_metered hfree, hroomy.track hkey, BEEFLimiter.putSource_keys]
  split_ifs with hthere
  · rcases hother with rfl | hold
    · exact hthere
    · exact hold
  · rw [List.mem_append, List.mem_singleton]
    exact hother.symm

end Calls

/-- The next charge of a key makes it new buckets. -/
def BEEFLimiter.Fresh (l : BEEFLimiter) (key : String) : Prop :=
  ¬ l.SourcesFree ∧ l.srcs.lookup key = none

section Runs

variable {env : Env} {cfg : BEEFRateConfig} {l : BEEFLimiter} {calls : List SourceCall}

theorem BEEFLimiter.after_append (env : Env) (l : BEEFLimiter) (calls : List SourceCall)
    (call : SourceCall) :
    l.after env (calls ++ [call]) =
      ((l.after env calls).allow (env.walking call) (some call.src) call.size call.now).2 := by
  rw [BEEFLimiter.after, List.foldl_append]
  rfl

theorem BEEFLimiter.after_cfg (env : Env) (l : BEEFLimiter) (calls : List SourceCall) :
    (l.after env calls).cfg = l.cfg := by
  induction calls using List.reverseRecOn with
  | nil => rfl
  | append_singleton calls call ih => rw [after_append, BEEFLimiter.allow_cfg, ih]

/-- Neither the requests nor the order of the walk change a source's key. -/
theorem BEEFLimiter.after_keyOf (env : Env) (l : BEEFLimiter) (calls : List SourceCall)
    (call : SourceCall) : (l.after env calls).keyOf (env.walking call) = l.keyOf env := by
  funext src
  rw [BEEFLimiter.keyOf, BEEFLimiter.keyOf, after_cfg]
  rfl

theorem BEEFLimiter.after_free (env : Env) (l : BEEFLimiter) (calls : List SourceCall) :
    (l.after env calls).SourcesFree ↔ l.SourcesFree := by
  rw [BEEFLimiter.SourcesFree, BEEFLimiter.SourcesFree, after_cfg]

theorem chargedAt_append (keyOf : NetAddr → String) (calls : List SourceCall)
    (call : SourceCall) :
    chargedAt keyOf (calls ++ [call]) =
      Function.update (chargedAt keyOf calls) (keyOf call.src) call.now := by
  funext key
  rw [chargedAt, List.foldl_append, List.foldl_cons, List.foldl_nil]
  by_cases hself : keyOf call.src = key
  · rw [if_pos hself, ← hself, Function.update_self]
  · rw [if_neg hself, Function.update_of_ne (Ne.symm hself)]
    rfl

/-- Printed addresses are never empty, so no key is. -/
theorem keyOf_ne_empty (hprints : ∀ ip, env.ipString ip ≠ "") {src : NetAddr}
    (hsrc : CarriesIP src) : l.keyOf env src ≠ "" := by
  have hkey : ∀ ip, addrToIP env src = some ip → l.keyOf env src ≠ "" := by
    intro ip hip
    rw [BEEFLimiter.keyOf, sourceKey, hip]
    dsimp only
    split
    · exact hprints _
    · exact hprints _
  cases hsrc with
  | udp ip => exact hkey ip rfl
  | tcp ip => exact hkey ip rfl

theorem newBEEFLimiter_table (cfg : BEEFRateConfig) (keyOf : NetAddr → String) :
    (newBEEFLimiter cfg).Table (chargedAt keyOf []) := by
  have hlimit : 0 < (newBEEFLimiter cfg).cfg.maxTrackedSources := by
    simp only [newBEEFLimiter]
    split
    · decide
    · rename_i hset
      exact not_le.mp hset
  exact ⟨hlimit, hlimit.le, List.nodup_nil, List.not_mem_nil, fun _ _ hlookup => by cases hlookup⟩

theorem BEEFLimiter.Table.after (hprints : ∀ ip, env.ipString ip ≠ "")
    (hfree : ¬ l.SourcesFree) (htable : l.Table (chargedAt (l.keyOf env) []))
    (hcalls : ∀ call ∈ calls, CarriesIP call.src ∧ call.now ≠ 0) :
    (l.after env calls).Table (chargedAt (l.keyOf env) calls) := by
  induction calls using List.reverseRecOn with
  | nil => exact htable
  | append_singleton calls call ih =>
      obtain ⟨hsrc, hnow⟩ := hcalls call (by simp)
      have hbefore := ih fun call hcall => hcalls call (List.mem_append_left _ hcall)
      have hkeyOf := BEEFLimiter.after_keyOf env l calls call
      rw [BEEFLimiter.after_append, chargedAt_append, ← congrFun hkeyOf call.src]
      refine hbefore.allow (mt (BEEFLimiter.after_free env l calls).mp hfree) ?_ hnow
      rw [hkeyOf]
      exact keyOf_ne_empty hprints hsrc

theorem BEEFLimiter.Roomy.after {keys : Finset String} (hroomy : l.Roomy keys)
    (hkeys : ∀ call ∈ calls, l.keyOf env call.src ∈ keys) :
    (l.after env calls).Roomy keys ∧
      (¬ l.SourcesFree → ∀ call ∈ calls, l.keyOf env call.src ∈ (l.after env calls).tracked) := by
  induction calls using List.reverseRecOn with
  | nil => exact ⟨hroomy, fun _ _ hcall => absurd hcall List.not_mem_nil⟩
  | append_singleton calls call ih =>
      obtain ⟨hbefore, hstay⟩ := ih fun call hcall => hkeys call (List.mem_append_left _ hcall)
      have hkeyOf := congrFun (BEEFLimiter.after_keyOf env l calls call) call.src
      have hkey : (l.after env calls).keyOf (env.walking call) call.src ∈ keys :=
        hkeyOf ▸ hkeys call (by simp)
      rw [BEEFLimiter.after_append]
      refine ⟨hbefore.allow hkey _ _, fun hfree earlier hearlier => ?_⟩
      refine hbefore.allow_tracked (mt (BEEFLimiter.after_free env l calls).mp hfree) hkey ?_
      rcases List.mem_append.mp hearlier with hold | hlast
      · exact Or.inr (hstay hfree earlier hold)
      · rw [List.mem_singleton.mp hlast, hkeyOf]
        exact Or.inl rfl

theorem BEEFLimiter.after_srcs_of_free (hfree : l.SourcesFree) (calls : List SourceCall) :
    (l.after env calls).srcs = l.srcs := by
  induction calls using List.reverseRecOn with
  | nil => rfl
  | append_singleton calls call ih =>
      rw [after_append, allow_free ((after_free env l calls).mpr hfree), ih]

theorem BEEFLimiter.length_tracked (l : BEEFLimiter) : l.tracked.length = l.srcs.length :=
  List.length_map _

/-- What the next request does to the table. -/
theorem BEEFLimiter.Table.after_step (hfree : ¬ l.SourcesFree)
    (htable : (l.after env calls).Table (chargedAt (l.keyOf env) calls)) (call : SourceCall) :
    TableStep l.cfg.maxTrackedSources (chargedAt (l.keyOf env) calls) (l.keyOf env call.src)
      (l.after env calls).tracked (l.after env (calls ++ [call])).tracked := by
  rw [← BEEFLimiter.after_keyOf env l calls call, ← BEEFLimiter.after_cfg env l calls,
    BEEFLimiter.after_append]
  rw [← BEEFLimiter.after_keyOf env l calls call] at htable
  exact htable.allow_step (mt (BEEFLimiter.after_free env l calls).mp hfree)

/-- If the keys of a sequence fit, who was charged once is there. -/
theorem not_fresh_of_fits {before rest : List SourceCall}
    (hfits : ((((before ++ rest).map fun call =>
      (newBEEFLimiter cfg).keyOf env call.src).toFinset.card : Nat) : Int) ≤
        (newBEEFLimiter cfg).cfg.maxTrackedSources)
    {earlier : SourceCall} (hearlier : earlier ∈ before) :
    ¬ ((newBEEFLimiter cfg).after env before).Fresh
      ((newBEEFLimiter cfg).keyOf env earlier.src) := by
  rintro ⟨hmetered, hnone⟩
  have hfree := mt (BEEFLimiter.after_free env (newBEEFLimiter cfg) before).mpr hmetered
  have hkeys : ∀ call ∈ before, (newBEEFLimiter cfg).keyOf env call.src ∈
      ((before ++ rest).map fun call => (newBEEFLimiter cfg).keyOf env call.src).toFinset :=
    fun call hcall => List.mem_toFinset.mpr
      (List.mem_map.mpr ⟨call, List.mem_append_left _ hcall, rfl⟩)
  have hthere := ((newBEEFLimiter_roomy cfg hfits).after hkeys).2 hfree earlier hearlier
  obtain ⟨sb, hlookup⟩ := BEEFLimiter.mem_tracked.mp hthere
  cases hnone.symm.trans hlookup

/-- The table of sources is bounded and evicts fairly.  It never holds more entries than
the limit.  An entry goes only when a new key comes to a full table; then exactly one goes,
and none was charged longer ago.  If the keys of the sequence fit, no source that was
charged once is given new buckets again. -/
theorem source_table_fair (env : Env) (cfg : BEEFRateConfig) (calls : List SourceCall)
    (hprints : ∀ ip, env.ipString ip ≠ "")
    (hcalls : ∀ call ∈ calls, CarriesIP call.src ∧ call.now ≠ 0) :
    let new := newBEEFLimiter cfg
    let limit : Int := if cfg.maxTrackedSources ≤ 0 then 65536 else cfg.maxTrackedSources
    ((new.after env calls).srcs.length : Int) ≤ limit ∧
    ∀ before call rest, calls = before ++ call :: rest →
      let l := new.after env before
      let l' := new.after env (before ++ [call])
      let key := new.keyOf env call.src
      (l.srcs.length : Int) ≤ limit ∧
      (∀ gone ∈ l.tracked, gone ∉ l'.tracked →
        key ∉ l.tracked ∧ (l.srcs.length : Int) = limit ∧
          (∀ other ∈ l.tracked, other ≠ gone → other ∈ l'.tracked) ∧
          ∀ other ∈ l.tracked, chargedAt (new.keyOf env) before gone ≤
            chargedAt (new.keyOf env) before other) ∧
      (¬ new.SourcesFree → key ∉ l.tracked → (l.srcs.length : Int) = limit →
        ∃ gone ∈ l.tracked, gone ∉ l'.tracked) ∧
      (((calls.map fun call => new.keyOf env call.src).toFinset.card : Int) ≤ limit →
        (∃ earlier ∈ before, new.keyOf env earlier.src = key) → ¬ l.Fresh key) := by
  intro new limit
  have hlimit : 0 < limit := (newBEEFLimiter_table cfg (new.keyOf env)).limit
  have hbound : ∀ calls : List SourceCall,
      (∀ call ∈ calls, CarriesIP call.src ∧ call.now ≠ 0) →
      ((new.after env calls).srcs.length : Int) ≤ limit := by
    intro calls hcalls
    by_cases hfree : new.SourcesFree
    · rw [BEEFLimiter.after_srcs_of_free hfree]
      exact hlimit.le
    · have hroom := ((newBEEFLimiter_table cfg _).after hprints hfree hcalls).room
      rw [BEEFLimiter.after_cfg, BEEFLimiter.length_tracked] at hroom
      exact hroom
  refine ⟨hbound calls hcalls, ?_⟩
  intro before call rest hsplit l l' key
  have hbefore : ∀ call ∈ before, CarriesIP call.src ∧ call.now ≠ 0 :=
    fun call hcall => hcalls call (hsplit ▸ List.mem_append_left _ hcall)
  refine ⟨hbound before hbefore, ?_, ?_, ?_⟩
  · intro gone hgone hlost
    by_cases hfree : new.SourcesFree
    · rw [BEEFLimiter.tracked, BEEFLimiter.after_srcs_of_free hfree] at hgone
      exact absurd hgone List.not_mem_nil
    · have htable := (newBEEFLimiter_table cfg _).after hprints hfree hbefore
      obtain ⟨hnew, hfull, hleast, hothers⟩ := (htable.after_step hfree call).lost hgone hlost
      rw [BEEFLimiter.length_tracked] at hfull
      exact ⟨hnew, hfull, hothers, hleast⟩
  · intro hfree hnew hfull
    have htable := (newBEEFLimiter_table cfg _).after hprints hfree hbefore
    rw [← BEEFLimiter.length_tracked] at hfull
    exact (htable.after_step hfree call).full htable.nodup hnew hfull
  · rintro hfits ⟨earlier, hearlier, hsame⟩
    rw [hsplit] at hfits
    rw [← hsame]
    exact not_fresh_of_fits hfits hearlier

end Runs

section Sample

open Reference

/-- Addresses printed so that none is empty. -/
def labelledEnv : Env :=
  { env with ipString := fun ip => "ip " ++ env.ipString ip }

theorem labelledEnv_prints (ip : Bytes) : labelledEnv.ipString ip ≠ "" := by
  intro hempty
  have hlength := congrArg String.length hempty
  rw [labelledEnv, String.length_append] at hlength
  have hlabel : "ip ".length = 3 := rfl
  have hnone : "".length = 0 := rfl
  omega

def twoPlaces : BEEFRateConfig :=
  ⟨1, 0, 64, 0, 0, 2⟩

def hostCall (host : UInt8) (now : Time) : SourceCall :=
  ⟨.udp (some [10, 0, 0, host]) 9000 "", 100, now, id, fun _ => List.Perm.refl _⟩

/-- Two sources fill the table, and the first comes again. -/
def filledCalls : List SourceCall :=
  [hostCall 1 5, hostCall 2 7, hostCall 1 9]

/-- A third takes the place of the second, which was charged longer ago than the first. -/
theorem source_table_fair_sample :
    (newBEEFLimiter twoPlaces).keyOf labelledEnv (hostCall 2 7).src ∉
        ((newBEEFLimiter twoPlaces).after labelledEnv (filledCalls ++ [hostCall 3 11])).tracked ∧
      (newBEEFLimiter twoPlaces).keyOf labelledEnv (hostCall 1 5).src ∈
        ((newBEEFLimiter twoPlaces).after labelledEnv
          (filledCalls ++ [hostCall 3 11])).tracked := by
  have hcalls : ∀ call ∈ filledCalls ++ [hostCall 3 11], CarriesIP call.src ∧ call.now ≠ 0 := by
    simp [filledCalls, hostCall, CarriesIP.udp]
  obtain ⟨-, hlost, hfull, -⟩ := (source_table_fair labelledEnv twoPlaces
    (filledCalls ++ [hostCall 3 11]) labelledEnv_prints hcalls).2 filledCalls (hostCall 3 11) []
    rfl
  obtain ⟨gone, hgone, hleft⟩ := hfull (by rw [BEEFLimiter.SourcesFree]; decide +kernel)
    (by decide +kernel) (by decide +kernel)
  obtain ⟨-, -, hothers, hleast⟩ := hlost gone hgone hleft
  have htracked : ((newBEEFLimiter twoPlaces).after labelledEnv filledCalls).tracked =
      [(newBEEFLimiter twoPlaces).keyOf labelledEnv (hostCall 1 5).src,
        (newBEEFLimiter twoPlaces).keyOf labelledEnv (hostCall 2 7).src] := by
    decide +kernel
  rw [htracked] at hgone hothers hleast
  rcases List.mem_pair.mp hgone with rfl | rfl
  · exact absurd (hleast _ (List.mem_cons_of_mem _ List.mem_cons_self)) (by decide +kernel)
  · exact ⟨hleft, hothers _ List.mem_cons_self (by decide +kernel)⟩

end Sample

end ShardProxy
