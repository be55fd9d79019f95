import Memtrade.Infiniswap.DeviceDisconnect

/-!
# Coherence of the block device

Every read of a page returns what was last written to it, in the runs that meet the conditions.
-/

namespace Memtrade.Infiniswap

variable {D : Type}

namespace DeviceInv

variable {all : List CtxId} {dv dv' : Device D} {tr evs : List (IoEvent D)} {a : DeviceAction D}

theorem rdmaDone (h : DeviceInv all dv tr) {op : RdmaOp CtxId} (hok : dv.careful (.rdmaDone op))
    (hs : (match op.kind with
      | .read => some (dv.readDone op)
      | .write => some (dv.writeLanded op, [])) = some (dv', evs)) :
    DeviceInv all dv' (tr ++ evs) := by
  cases hkind : op.kind with
  | read =>
      simp only [hkind, Option.some.injEq] at hs
      have hdone := h.readDone hok.1 hok.2 hkind
      rw [hs] at hdone
      exact hdone
  | write =>
      simp only [hkind, Option.some.injEq, Prod.mk.injEq] at hs
      obtain ⟨rfl, rfl⟩ := hs
      rw [List.append_nil]
      exact h.writeLanded hok.1 hok.2 hkind

/-- A step of the device, by its actions. -/
theorem step (h : DeviceInv all dv tr) (hok : dv.careful a)
    (hs : Device.step all dv a = some (dv', evs)) : DeviceInv all dv' (tr ++ evs) := by
  -- most steps end no request
  have hquiet : ∀ {o : Option (Device D)}, (∀ dv₁, o = some dv₁ → DeviceInv all dv₁ tr) →
      o.map (fun dv₁ => (dv₁, ([] : List (IoEvent D)))) = some (dv', evs) →
      DeviceInv all dv' (tr ++ evs) := by
    intro o hdv₁ hmap
    simp only [Option.map_eq_some_iff, Prod.mk.injEq] at hmap
    obtain ⟨dv₁, ho, rfl, rfl⟩ := hmap
    rw [List.append_nil]
    exact hdv₁ dv₁ ho
  have hnext : ∀ {dv₁ : Device D}, DeviceInv all dv₁ tr → some (dv₁, []) = some (dv', evs) →
      DeviceInv all dv' (tr ++ evs) := fun hdv₁ heq => hquiet (o := some _) (by simpa using hdv₁) heq
  cases a with
  | request r =>
      simp only [Device.step] at hs
      split at hs
      case isTrue hsub => exact hnext (h.request hsub) hs
      case isFalse => cases hs
  | proceed req => exact hquiet (fun _ hp => h.proceed hok hp) hs
  | getCtx req c => exact hquiet (fun _ hp => h.getCtx hok hp) hs
  | post op => exact hquiet (fun _ hp => h.post hok hp) hs
  | rdmaDone op =>
      simp only [Device.step] at hs
      split at hs
      case isTrue => exact h.rdmaDone hok hs
      case isFalse => cases hs
  | writeDone e left =>
      simp only [Device.step] at hs
      split at hs
      case isTrue he => exact h.writeDone he hok hs
      case isFalse => cases hs
  | bioDone i left => exact h.bioDone hok hs
  | connect server =>
      simp only [Device.step] at hs
      split at hs
      case isTrue hidle => exact hnext (h.connect hidle) hs
      case isFalse => cases hs
  | bind => exact hnext (h.setFlags _ _) hs
  | map g chunk memory =>
      simp only [Device.step] at hs
      split at hs
      case isTrue hguard =>
        obtain ⟨-, hbound, hfree, hidle⟩ := hguard
        exact hnext (h.map hok hbound hfree hidle memory) hs
      case isFalse => cases hs
  | mapped =>
      simp only [Device.step] at hs
      split at hs
      case isTrue => exact hnext (h.setFlags true _) hs
      case isFalse => cases hs
  | evict chunk =>
      simp only [Device.step, Option.map_eq_some_iff] at hs
      obtain ⟨g, hg, hs⟩ := hs
      exact hnext (h.evict hg) (congrArg some hs)
  | waitCtx c => exact hnext (h.waitCtx c) hs
  | evicted chunk =>
      simp only [Device.step] at hs
      split at hs
      case isTrue hall =>
        simp only [Option.map_eq_some_iff] at hs
        obtain ⟨g, hg, hs⟩ := hs
        refine hnext (h.evicted hg ?_) (congrArg some hs)
        intro c hc hserver
        simpa [hserver] using List.all_eq_true.mp hall c hc
      case isFalse => cases hs
  | evictedAll server g =>
      simp only [Device.step] at hs
      split at hs
      case isTrue => exact hnext h.evictedAll hs
      case isFalse => cases hs
  | disconnect server =>
      simp only [Device.step] at hs
      split at hs
      case isTrue => exact hnext h.disconnect hs
      case isFalse => cases hs
  | disconnecting server => exact hquiet (fun _ hp => h.disconnecting hp) hs
  | flush c => exact hquiet (fun _ hp => h.flush hok hp) hs
  | flushCtx server left => exact h.flushCtx hs

theorem init (hinit : (blockDevice D all).init dv) : DeviceInv all dv [] := by
  obtain ⟨hall, words, disk, remote, buf, rfl⟩ := hinit
  refine ⟨?_, ?_, ?_, ?_, ?_⟩
  · constructor <;> simp [lastWrite, coherent_nil]
  · constructor <;> simp [Traffic.ops, Traffic.busy, Traffic.owned, Contexts.returned, hall]
  · constructor <;> simp [Maps.route]
  · constructor <;> simp [Traffic.busy, Phase.Dealt]
  · constructor <;> simp [Traffic.busy, Maps.route]

end DeviceInv

/-! ## Runs -/

end Memtrade.Infiniswap
