import Mathlib.Data.Set.Function

set_option autoImplicit false

/-! # Exclusive resources

Holders of resources, where a locked resource is refused to everyone who asks for it. Of the
holders that are alive, each has its resource locked, and no two have the same one
(`Exclusive`). The rules say how this is kept: a holder that stops being alive keeps the
others as they are, a free resource can be acquired, and a resource can be unlocked when no
holder that is alive has it.

The other direction is that no lock is left behind: every resource that is locked has a holder
(`Accounted`). A lock that is taken gets one, and a holder that stops being alive unlocks its
resource. Together the locked resources are exactly those of the holders (`locked_eq`).
-/

/-- The holders that are `live` have their resources locked, each its own. -/
structure Exclusive {η ρ : Type} (res : η → ρ) (locked : Set ρ) (live : Set η) : Prop where
  locked : Set.MapsTo res live locked
  unique : Set.InjOn res live

namespace Exclusive

variable {η ρ : Type} {res : η → ρ} {locked locked' : Set ρ} {live live' : Set η} {x : η} {r : ρ}

theorem empty : Exclusive res locked ∅ := ⟨Set.mapsTo_empty res locked, Set.injOn_empty res⟩

/-- Fewer holders. -/
theorem subset (h : Exclusive res locked live) (hs : live' ⊆ live) : Exclusive res locked live' :=
  ⟨h.locked.mono_left hs, h.unique.mono hs⟩

/-- More locks. -/
theorem lock (h : Exclusive res locked live) (hs : locked ⊆ locked') :
    Exclusive res locked' live :=
  ⟨h.locked.mono_right hs, h.unique⟩

/-- Acquiring a free resource. -/
theorem acquire (h : Exclusive res locked live) (hfree : res x ∉ locked) :
    Exclusive res (insert (res x) locked) (insert x live) := by
  -- a holder of the resource would have it locked
  have hother : res x ∉ res '' live := by
    rintro ⟨y, hy, heq⟩
    exact hfree (heq ▸ h.locked hy)
  have hx : x ∉ live := fun hx => hother (Set.mem_image_of_mem res hx)
  constructor
  · rintro y (rfl | hy)
    · exact Set.mem_insert _ _
    · exact Set.mem_insert_of_mem _ (h.locked hy)
  · exact (Set.injOn_insert hx).mpr ⟨h.unique, hother⟩

/-- Unlocking a resource that no holder has. -/
theorem unlock (h : Exclusive res locked live) (hfree : r ∉ res '' live) :
    Exclusive res (locked \ {r}) live := by
  refine ⟨fun y hy => ⟨h.locked hy, ?_⟩, h.unique⟩
  rintro rfl
  exact hfree (Set.mem_image_of_mem res hy)

/-- When a holder stops being alive, no other holder has its resource. -/
theorem notMem_image (h : Exclusive res locked live) (hx : x ∈ live) (hs : live' ⊆ live)
    (hx' : x ∉ live') : res x ∉ res '' live' := by
  rintro ⟨y, hy, heq⟩
  exact hx' (h.unique (hs hy) hx heq ▸ hy)

end Exclusive

/-- Every resource that is locked has a holder. -/
def Accounted {η ρ : Type} (res : η → ρ) (locked : Set ρ) (live : Set η) : Prop :=
  locked ⊆ res '' live

namespace Accounted

variable {η ρ : Type} {res : η → ρ} {locked : Set ρ} {live live' : Set η} {x : η}

/-- More holders. -/
theorem mono (h : Accounted res locked live) (hs : live ⊆ live') : Accounted res locked live' :=
  h.trans (Set.image_mono hs)

/-- A lock that is taken has a holder. -/
theorem acquire (h : Accounted res locked live) :
    Accounted res (insert (res x) locked) (insert x live) := by
  rw [Accounted, Set.image_insert_eq]
  exact Set.insert_subset_insert h

/-- A holder that stops being alive unlocks its resource. -/
theorem unlock (h : Accounted res locked (insert x live)) :
    Accounted res (locked \ {res x}) live := by
  rintro r ⟨hr, hne⟩
  rcases h hr with ⟨y, rfl | hy, rfl⟩
  · exact absurd rfl hne
  · exact Set.mem_image_of_mem res hy

/-- No lock without a holder, and no holder without its lock. -/
theorem locked_eq (h : Accounted res locked live) (hlive : Exclusive res locked live) :
    locked = res '' live :=
  Set.Subset.antisymm h hlive.locked.image_subset

end Accounted
