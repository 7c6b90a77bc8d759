import Mavmm.Hostfs.Frame
import Mavmm.Hostfs.ReadBack

/-!
# Freeing a chain of clusters

`tf_free_clusterchain` goes on until it reads an end mark.  Because every FAT
entry reads as 0 it frees the cluster it is given and then cluster 0, again and
again, whatever the FAT holds (`tfFreeClusterchain_diverges`).
-/

namespace Mavmm.Hostfs

open Exec (Keeps)

/-- The function returns, and then the entries of the clusters of a well-formed chain are 0 and the
others are as they were. -/
structure FreesChain (s : Fs) (c : BitVec 32) : Prop where
  terminates : ∃ fuel rc s', (tfFreeClusterchain fuel c).Returns s rc s'
  freed : ∀ {fuel rc s' cs}, (tfFreeClusterchain fuel c).Returns s rc s' →
    s.info.Chain s.cache.view c cs → ∀ d, s'.fatEntry d = if d ∈ cs then 0#32 else s.fatEntry d

section
variable {s s' : Fs} {c rc : BitVec 32} {u : Unit} {fuel : Nat}

/-- No end mark is read, so that the loop does not end. -/
theorem not_returns_freeClusters (h : s.ErrorFree) :
    ¬ (freeClusters fuel c 0#32).Returns s u s' := by
  induction fuel generalizing s c with
  | zero => exact nofun
  | succ fuel ih =>
    intro hloop
    unfold freeClusters at hloop
    rw [if_neg (by decide)] at hloop
    obtain ⟨_, t, hset, hloop⟩ := Exec.returns_bind.mp hloop
    have ht : Unmoved s.handles t := Keeps.keeps (I := Unmoved s.handles) ⟨h, rfl⟩ hset
    obtain ⟨entry, t', hget, hloop⟩ := Exec.returns_bind.mp hloop
    have ht' : Unmoved s.handles t' := Keeps.keeps (I := Unmoved s.handles) ht hget
    rw [tfGetFatEntry_zero ht.errorFree hget] at hloop
    exact ih ht'.errorFree hloop

/-- A chain is never freed. -/
theorem tfFreeClusterchain_never (h : s.ErrorFree) : ¬ FreesChain s c := by
  intro hfrees
  obtain ⟨fuel, rc, s', hfree⟩ := hfrees.terminates
  unfold tfFreeClusterchain at hfree
  obtain ⟨entry, t, hget, hloop⟩ := Exec.returns_bind.mp hfree
  have ht : Unmoved s.handles t := Keeps.keeps (I := Unmoved s.handles) ⟨h, rfl⟩ hget
  obtain ⟨_, _, hloop, -⟩ := Exec.returns_bind.mp hloop
  rw [tfGetFatEntry_zero h hget] at hloop
  exact not_returns_freeClusters ht.errorFree hloop

theorem tfFreeClusterchain_never_blank : ¬ FreesChain Fs.blank 2#32 :=
  tfFreeClusterchain_never Fs.errorFree_blank

/-- A turn of the loop. -/
def freeTurn (fuel : Nat) (cluster value fatEntry : BitVec 32) : FsM Unit := do
  let _ ← tfSetFatEntry cluster value
  let fatEntry ← tfGetFatEntry fatEntry
  freeClusters fuel fatEntry fatEntry

theorem freeClusters_succ : freeClusters (fuel + 1) c 0#32 = freeTurn fuel c 0#32 0#32 := by
  rw [freeClusters, if_neg (by decide)]
  rfl

theorem run_freeTurn {value entry next : BitVec 32} {es : List FsEvent} {t : Fs}
    (hset : tfSetFatEntry c value s = (es, .ok (rc, t)))
    (hget : tfGetFatEntry entry t = ([], .ok (next, s'))) :
    (freeTurn fuel c value entry s).2 = (freeClusters fuel next next s').2 := by
  unfold freeTurn
  rw [Exec.run_bind_log hset, Exec.run_bind hget]

/-- Any number of turns is used up. -/
theorem freeClusters_diverges (h : s.ErrorFree) (hc : ClusterNumber c) :
    (freeClusters fuel c 0#32 s).2 = .error .diverges := by
  induction fuel generalizing s c with
  | zero => rfl
  | succ fuel ih =>
    have hzero : ClusterNumber 0#32 := by decide
    have hset := run_tfSetFatEntry h hc.fatOffset hc.index_nonneg 0#32
    have hfree : ((s.fetched (s.info.fatSector c)).wordSet (fatIndex c) 0#32).ErrorFree :=
      h.fetched _
    have hget := run_tfGetFatEntry hfree hzero.fatOffset
    rw [freeClusters_succ, run_freeTurn hset hget]
    exact ih (hfree.fetched _) hzero

/-- Whatever the FAT holds, no number of turns is enough. -/
theorem tfFreeClusterchain_diverges (h : s.ErrorFree) (hc : ClusterNumber c) :
    (tfFreeClusterchain fuel c s).2 = .error .diverges := by
  have hloop := @freeClusters_diverges _ c fuel (h.fetched (s.info.fatSector c)) hc
  unfold tfFreeClusterchain
  rw [Exec.run_bind (run_tfGetFatEntry h hc.fatOffset), Exec.run_bind_fails (Prod.ext rfl hloop)]

end

/-- The two clusters of a file are not freed. -/
theorem tfFreeClusterchain_twoClusters :
    Fs.twoClusters.info.Chain Fs.twoClusters.cache.view 2#32 [2#32, 3#32] ∧
    ∀ fuel, (tfFreeClusterchain fuel 2#32 Fs.twoClusters).2 = .error .diverges := by
  refine ⟨chain_twoClusters rfl, fun fuel => ?_⟩
  exact tfFreeClusterchain_diverges mounted_twoClusters.errorFree (by decide)

end Mavmm.Hostfs
