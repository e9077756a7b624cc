/-
Automatic configuration.  Every second the applier takes the adopted view of the
manifests and tells `main`'s hooks what is different from the view before; the
view before the first is the zero one.  The hooks request a restart or publish a
successor's engine.  None of them looks at what the process runs with.
-/
import ShardProxy.Lib.Watch
import ShardProxy.Reference

namespace ShardProxy

open Watch

/-- A successor layout announced by the pilots.  `rest` is what else two such views
may differ in. -/
structure SuccessorView where
  shardBits : UInt8
  transitionEpoch : UInt32
  rest : List UInt8
deriving DecidableEq

/-- What is adopted for one object plane. -/
structure DomainAdoption where
  shardBits : UInt8
deriving DecidableEq

/-- What `Evaluate` returns, as far as a hook is told of it. -/
structure Adopted where
  shardBits : UInt8
  sourceModeSSM : Bool
  successor : Option SuccessorView
  domains : UInt8 → Option DomainAdoption

def Adopted.zero : Adopted :=
  ⟨0, false, none, fun _ => none⟩

/-- A plane's width in a view; a domain that is not there has width zero. -/
def Adopted.domainBits (view : Adopted) (id : UInt8) : UInt8 :=
  ((view.domains id).map DomainAdoption.shardBits).getD 0

/-- A transition of one plane's width. -/
structure DomainChange where
  domain : UInt8
  prev : UInt8
  next : UInt8
deriving DecidableEq

/-- The domain ids that are compared, zero to 0x0E. -/
def domainIDs : List UInt8 :=
  (List.range 0x0F).map UInt8.ofNat

def domainShardBitsChanges (prev next : Adopted) : List DomainChange :=
  domainIDs.filterMap fun id =>
    if prev.domainBits id ≠ next.domainBits id then
      some ⟨id, prev.domainBits id, next.domainBits id⟩
    else none

/-- Change handlers over some state; one that is not set is nil. -/
structure Hooks (S : Type) where
  onShardBitsChange : Option (UInt8 → UInt8 → S → S)
  onSourceModeChange : Option (Bool → Bool → S → S)
  onSuccessorChange : Option (Option SuccessorView → Option SuccessorView → S → S)
  onDomainShardBitsChange : Option (UInt8 → UInt8 → UInt8 → S → S)

/-- Tell a hook of a value that is not what it was. -/
def notify {A S : Type} [DecidableEq A] (hook : Option (A → A → S → S)) (prev next : A) (s : S) :
    S :=
  match hook with
  | none => s
  | some hook => if prev ≠ next then hook prev next s else s

/-- Tell a hook of every plane whose width is not what it was. -/
def notifyDomains {S : Type} (hook : Option (UInt8 → UInt8 → UInt8 → S → S))
    (prev next : Adopted) (s : S) : S :=
  match hook with
  | none => s
  | some hook => (domainShardBitsChanges prev next).foldl
      (fun s change => hook change.domain change.prev change.next s) s

/-- One round of `Applier.Run`. -/
def applierTick {S : Type} (hooks : Hooks S) (prev next : Adopted) (s : S) : S :=
  let s := notify hooks.onShardBitsChange prev.shardBits next.shardBits s
  let s := notify hooks.onSourceModeChange prev.sourceModeSSM next.sourceModeSSM s
  let s := notify hooks.onSuccessorChange prev.successor next.successor s
  notifyDomains hooks.onDomainShardBitsChange prev next s

/-- `Applier.Run` on the views `Evaluate` returns, tick by tick. -/
def applierRun {S : Type} (hooks : Hooks S) (views : List Adopted) (s : S) : S :=
  watch (applierTick hooks) .zero views s

/-- The part of the process the hooks write to: the restart requested, with its
reason, the channel that wakes `main`, and the engine published to the forwarder. -/
structure Process where
  restart : Option String
  restartSig : Bool
  bridging : Option Engine

def Process.start : Process :=
  ⟨none, false, none⟩

/-- `restart.Request` and the signal; the first reason is kept. -/
def Process.request (reason : String) (p : Process) : Process :=
  { p with restart := some (p.restart.getD reason), restartSig := true }

/-- The configuration the hooks read; `newEngine` is `shard.New` under the
configured prefix and group. -/
structure AutoConfig where
  liveResharding : Bool
  newEngine : UInt8 → Engine

def mainHooks (cfg : AutoConfig) : Hooks Process where
  onShardBitsChange := some fun _ _ p =>
    -- With live resharding the swap is left to the successor's cutover.
    if cfg.liveResharding then p else p.request "shard_bits change"
  onSourceModeChange := some fun _ _ p =>
    if cfg.liveResharding then p else p.request "source_mode change"
  onSuccessorChange :=
    if cfg.liveResharding then
      some fun _ after p =>
        { p with bridging := after.map fun successor => cfg.newEngine successor.shardBits }
    else none
  onDomainShardBitsChange := some fun _ _ _ p => p.request "domain_shard_bits change"

/-- A process from its start on, under some views. -/
def autoConfigRun (cfg : AutoConfig) (views : List Adopted) : Process :=
  applierRun (mainHooks cfg) views .start

def Process.Requested (p : Process) : Prop :=
  p.restart ≠ none

/-- What a change of makes the hooks request a restart: all there is in restart mode,
and the planes' widths alone with live resharding. -/
def Adopted.watched (cfg : AutoConfig) (view : Adopted) : UInt8 × Bool × List UInt8 :=
  if cfg.liveResharding then (0, false, domainIDs.map view.domainBits)
  else (view.shardBits, view.sourceModeSSM, domainIDs.map view.domainBits)

section Requests

variable {p : Process}

theorem mem_domainIDs (id : UInt8) : id ∈ domainIDs ↔ id ≤ 0x0E := by
  rw [domainIDs, List.mem_map, UInt8.le_iff_toNat_le]
  constructor
  · rintro ⟨n, hn, rfl⟩
    have hlt : n < 15 := List.mem_range.mp hn
    rw [UInt8.toNat_ofNat', Nat.mod_eq_of_lt (by omega)]
    exact Nat.le_of_lt_succ hlt
  · intro hid
    exact ⟨id.toNat, List.mem_range.mpr (Nat.lt_succ_of_le hid), UInt8.ofNat_toNat⟩

theorem domainShardBitsChanges_eq_nil {prev next : Adopted} :
    domainShardBitsChanges prev next = [] ↔
      domainIDs.map prev.domainBits = domainIDs.map next.domainBits := by
  rw [domainShardBitsChanges, List.filterMap_eq_nil_iff, List.map_inj_left]
  apply forall₂_congr
  intro id _
  by_cases hsame : prev.domainBits id = next.domainBits id
  · simp only [hsame, ne_eq, not_true_eq_false, ↓reduceIte]
  · simp only [hsame, ne_eq, not_false_eq_true, ↓reduceIte, reduceCtorEq]

/-- A hook that requests a restart does so when there is a change. -/
theorem notify_request {A : Type} [DecidableEq A] (reason : String) (prev next : A) :
    (notify (some fun _ _ p => p.request reason) prev next p).Requested ↔
      p.Requested ∨ prev ≠ next := by
  rw [notify]
  by_cases hsame : prev = next
  · rw [if_neg (not_not_intro hsame)]
    exact ⟨Or.inl, fun hor => hor.resolve_right (not_not_intro hsame)⟩
  · rw [if_pos hsame]
    exact ⟨fun _ => Or.inr hsame, fun _ => nofun⟩

theorem notifyDomains_request (reason : String) (prev next : Adopted) :
    (notifyDomains (some fun _ _ _ p => p.request reason) prev next p).Requested ↔
      p.Requested ∨ domainIDs.map prev.domainBits ≠ domainIDs.map next.domainBits := by
  rw [notifyDomains, ne_eq, ← domainShardBitsChanges_eq_nil]
  induction domainShardBitsChanges prev next generalizing p with
  | nil => exact ⟨Or.inl, fun hor => hor.resolve_right (not_not_intro rfl)⟩
  | cons change changes ih =>
      rw [List.foldl_cons, ih]
      exact ⟨fun _ => Or.inr nofun, fun _ => Or.inl nofun⟩

theorem notifyDomains_bridging (reason : String) (prev next : Adopted) :
    (notifyDomains (some fun _ _ _ p => p.request reason) prev next p).bridging =
      p.bridging := by
  rw [notifyDomains]
  generalize domainShardBitsChanges prev next = changes
  induction changes generalizing p with
  | nil => rfl
  | cons change changes ih => exact ih

theorem notify_none {A S : Type} [DecidableEq A] (prev next : A) (s : S) :
    notify none prev next s = s :=
  rfl

theorem notify_keep {A : Type} [DecidableEq A] (prev next : A) :
    notify (some fun _ _ p => p) prev next p = p := by
  rw [notify, ite_self]

variable {cfg : AutoConfig}

theorem mainHooks_restart (hmode : cfg.liveResharding = false) :
    mainHooks cfg = ⟨some fun _ _ p => p.request "shard_bits change",
      some fun _ _ p => p.request "source_mode change", none,
      some fun _ _ _ p => p.request "domain_shard_bits change"⟩ := by
  simp only [mainHooks, hmode, Bool.false_eq_true, ↓reduceIte]

theorem mainHooks_live (hmode : cfg.liveResharding = true) :
    mainHooks cfg = ⟨some fun _ _ p => p, some fun _ _ p => p,
      some fun _ after p =>
        { p with bridging := after.map fun successor => cfg.newEngine successor.shardBits },
      some fun _ _ _ p => p.request "domain_shard_bits change"⟩ := by
  simp only [mainHooks, hmode, ↓reduceIte]

theorem notify_publish_requested {A : Type} [DecidableEq A] (publish : A → Option Engine)
    (prev next : A) :
    (notify (some fun _ after p => { p with bridging := publish after }) prev next p).Requested ↔
      p.Requested := by
  rw [notify]
  split <;> exact Iff.rfl

/-- A tick requests a restart when what is watched changed. -/
theorem applierTick_requested (prev next : Adopted) :
    (applierTick (mainHooks cfg) prev next p).Requested ↔
      p.Requested ∨ prev.watched cfg ≠ next.watched cfg := by
  cases hmode : cfg.liveResharding with
  | false =>
      simp only [applierTick, mainHooks_restart hmode, notifyDomains_request, notify_none,
        notify_request, Adopted.watched, hmode, Bool.false_eq_true, ↓reduceIte, ne_eq,
        Prod.mk.injEq, not_and_or, or_assoc]
  | true =>
      simp only [applierTick, mainHooks_live hmode, notifyDomains_request,
        notify_publish_requested, notify_keep, Adopted.watched, hmode, ↓reduceIte, ne_eq,
        Prod.mk.injEq, true_and]

/-- No restart is requested if and only if every view shows what the zero view does. -/
theorem not_requested_iff_watched (views : List Adopted) :
    ¬ (autoConfigRun cfg views).Requested ↔
      ∀ view ∈ views, view.watched cfg = Adopted.zero.watched cfg := by
  apply watch_silent_iff
  · intro prev next p hrequested
    exact (applierTick_requested prev next).mpr (Or.inl hrequested)
  · intro prev next p hsilent
    rw [applierTick_requested, or_iff_right hsilent]
  · exact not_not_intro rfl

/-- The widths of a view are the zero view's when they are all zero. -/
theorem domainBits_eq_zero_iff (view : Adopted) :
    domainIDs.map view.domainBits = domainIDs.map Adopted.zero.domainBits ↔
      ∀ id ≤ 0x0E, view.domainBits id = 0 := by
  rw [List.map_inj_left]
  exact forall_congr' fun id => imp_congr_left (mem_domainIDs id)

end Requests

/-- What an evaluator says of a process that runs as it should: the values it runs
with, or nothing adopted. -/
structure Adopted.Own (shardBits : UInt8) (ssm : Bool) (width : UInt8 → UInt8) (view : Adopted) :
    Prop where
  shardBits : view.shardBits = 0 ∨ view.shardBits = shardBits
  sourceMode : view.sourceModeSSM = ssm
  domains : ∀ id, view.domainBits id = 0 ∨ view.domainBits id = width id

/-- A process is left running if and only if no view it is shown adopts a width for a
plane and, in restart mode, none adopts a width or the SSM mode at all. -/
theorem not_requested_iff (cfg : AutoConfig) (views : List Adopted) :
    ¬ (autoConfigRun cfg views).Requested ↔
      ∀ view ∈ views, (∀ id ≤ 0x0E, view.domainBits id = 0) ∧
        (cfg.liveResharding = false → view.shardBits = 0 ∧ view.sourceModeSSM = false) := by
  rw [not_requested_iff_watched]
  apply forall₂_congr
  intro view _
  rw [← domainBits_eq_zero_iff]
  cases hmode : cfg.liveResharding with
  | false =>
      simp only [Adopted.watched, hmode, Bool.false_eq_true, ↓reduceIte, Prod.mk.injEq,
        forall_const]
      exact ⟨fun ⟨hbits, hmode, hwidths⟩ => ⟨hwidths, hbits, hmode⟩,
        fun ⟨hwidths, hbits, hmode⟩ => ⟨hbits, hmode, hwidths⟩⟩
  | true =>
      simp only [Adopted.watched, hmode, ↓reduceIte, Prod.mk.injEq, true_and, reduceCtorEq,
        false_implies, and_true]

/-- The engine published is the last view's successor's. -/
theorem bridging_of_live {cfg : AutoConfig} (hmode : cfg.liveResharding = true)
    (views : List Adopted) :
    (autoConfigRun cfg views).bridging =
      (views.getLastD .zero).successor.map fun successor => cfg.newEngine successor.shardBits := by
  refine watch_tracks (P := fun (view : Adopted) (p : Process) => p.bridging =
    view.successor.map fun successor => cfg.newEngine successor.shardBits) ?_ rfl views
  intro prev next p hpublished
  simp only [applierTick, mainHooks_live hmode, notify_keep, notifyDomains_bridging]
  by_cases hsame : prev.successor = next.successor
  · simp only [notify, hsame, ne_eq, not_true_eq_false, ↓reduceIte]
    exact hsame ▸ hpublished
  · simp only [notify, hsame, ne_eq, not_false_eq_true, ↓reduceIte]

/-- The pilots announce a layout of `bits` other than the active one, and at the end
they have adopted it and withdrawn the announcement. -/
structure Cutover (active : Engine) (bits : UInt8) (earlier : List Adopted) (last : Adopted) :
    Prop where
  announced : ∃ view ∈ earlier, ∃ successor, view.successor = some successor ∧
    successor.shardBits = bits
  other : active.shardBits ≠ bits.toNat
  cleared : last.successor = none
  adopted : last.shardBits = bits

/-- Transactions go to a layout of some width: the active engine's or the published
one's. -/
def Process.EmitsTo (p : Process) (active : Engine) (bits : UInt8) : Prop :=
  active.shardBits = bits.toNat ∨
    ∃ secondary, p.bridging = some secondary ∧ secondary.shardBits = bits.toNat

/-- With live resharding a cutover is followed, by a restart or by emitting to the new
layout, if and only if some view adopted a width for a plane. -/
theorem reshard_completes_iff {cfg : AutoConfig} (hmode : cfg.liveResharding = true)
    {active : Engine} {bits : UInt8} {earlier : List Adopted} {last : Adopted}
    (hcutover : Cutover active bits earlier last) :
    ((autoConfigRun cfg (earlier ++ [last])).Requested ∨
        (autoConfigRun cfg (earlier ++ [last])).EmitsTo active bits) ↔
      ∃ view ∈ earlier ++ [last], ∃ id ≤ 0x0E, view.domainBits id ≠ 0 := by
  have hsilent : ¬ (autoConfigRun cfg (earlier ++ [last])).EmitsTo active bits := by
    rintro (hactive | ⟨secondary, hsecondary, _⟩)
    · exact hcutover.other hactive
    · rw [bridging_of_live hmode, List.getLastD_concat, hcutover.cleared] at hsecondary
      cases hsecondary
  rw [or_iff_left hsilent, ← not_iff_not, not_requested_iff]
  simp only [hmode, reduceCtorEq, false_implies, and_true, not_exists, not_and, not_not]

section Sample

open Reference

/-- Engines over the leading bits of a TxID, of twelve at most. -/
def layouts (bits : UInt8) : Engine :=
  engine (min bits.toNat 12) (Nat.min_le_right _ _)

/-- A view that adopts what a process of eight bits and a plane of four runs with. -/
def ownView : Adopted :=
  ⟨8, false, none, fun id => if id = 1 then some ⟨4⟩ else none⟩

/-- A process that is shown its own values requests a restart, and will be shown them
again after it. -/
theorem requested_of_ownView :
    ownView.Own 8 false (fun _ => 4) ∧
      (autoConfigRun ⟨false, layouts⟩ [ownView]).restart = some "shard_bits change" ∧
      (autoConfigRun ⟨true, layouts⟩ [ownView]).restart = some "domain_shard_bits change" := by
  refine ⟨⟨Or.inr rfl, rfl, ?_⟩, rfl, rfl⟩
  intro id
  by_cases hid : id = 1
  · rw [hid]
    exact Or.inr rfl
  · left
    simp only [Adopted.domainBits, ownView, hid, ↓reduceIte, Option.map_none, Option.getD_none]

/-- A layout of nine bits is announced over one of eight. -/
def announcedView : Adopted :=
  ⟨8, false, some ⟨9, 1000, []⟩, fun _ => none⟩

/-- It is adopted, with the plane's width or without. -/
def adoptedView (width : Option DomainAdoption) : Adopted :=
  ⟨9, false, none, fun id => if id = 1 then width else none⟩

theorem cutover_sample (width : Option DomainAdoption) :
    Cutover (layouts 8) 9 [announcedView] (adoptedView width) :=
  ⟨⟨announcedView, List.mem_singleton_self _, _, rfl, rfl⟩, by decide, rfl, rfl⟩

/-- The plane's width is adopted too, and that restarts the process. -/
theorem reshard_completes_sample :
    (autoConfigRun ⟨true, layouts⟩ [announcedView, adoptedView (some ⟨4⟩)]).Requested ∨
      (autoConfigRun ⟨true, layouts⟩ [announcedView, adoptedView (some ⟨4⟩)]).EmitsTo
        (layouts 8) 9 :=
  (reshard_completes_iff rfl (cutover_sample (some ⟨4⟩))).mpr
    ⟨adoptedView (some ⟨4⟩), List.mem_cons_of_mem _ (List.mem_singleton_self _), 1, by decide,
      by decide⟩

/-- After a cutover without it the proxy goes on emitting to the old layout alone. -/
theorem reshard_stalls :
    Cutover (layouts 8) 9 [announcedView] (adoptedView none) ∧
      (autoConfigRun ⟨true, layouts⟩ [announcedView, adoptedView none]).restart = none ∧
      ¬ (autoConfigRun ⟨true, layouts⟩ [announcedView, adoptedView none]).EmitsTo
        (layouts 8) 9 := by
  refine ⟨cutover_sample none, rfl, ?_⟩
  rintro (hactive | ⟨secondary, hsecondary, _⟩)
  · exact absurd hactive (by decide)
  · cases hsecondary

end Sample

end ShardProxy
