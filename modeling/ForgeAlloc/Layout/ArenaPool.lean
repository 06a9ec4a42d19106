import ForgeAlloc.Backing.Mmap
import ForgeAlloc.Layout.BumpRun

set_option autoImplicit false

/-! # `ArenaPool`

A stack of arenas that nobody uses. `checkout` takes the last one that was returned, and mints a new
one if there is none; `giveBack` resets an arena and keeps it, up to a cap.

The factory that mints backings and the destructor that drops them are code of the backing. Both work
on a state `φ`, which is all that the pool does not know about: the variables of the closure, and
the system. An `Account` is a record of the backings that are alive, in that state; `minting` and
`dropping` are what the methods of the pool do to it.
-/

namespace ForgeAlloc

open MachineInt ByteMemory

/-- The factory of a pool, and the destructor of its backings. -/
structure Backings (β φ : Type) where
  mint : φ → Option β × φ
  drop : β → φ → φ

/-- The methods of `OsBacked` that a pool calls. -/
structure PageRelease (β : Type) where
  /-- `base_ptr` and `region_size`. -/
  region : β → Block
  /-- `release_pages`: what of the range reaches the system. -/
  releasePages : Block → β → Option Block

structure ArenaPool (β φ : Type) where
  factory : φ
  /-- The arena that was pushed last comes first. -/
  idle : List (BumpArena β)
  cap : Nat

namespace ArenaPool

variable {w : Nat} {β φ : Type}

def new (cap : Nat) (factory : φ) : ArenaPool β φ := ⟨factory, [], cap⟩

/-- `BumpArena::new((self.factory)()?)`. A backing that is rejected is dropped. -/
def mintArena (w : Nat) (R : FixedRange β) (S : Backings β φ) (f : φ) : Option (BumpArena β) × φ :=
  match S.mint f with
  | (none, f) => (none, f)
  | (some b, f) =>
      match BumpArena.new w R b with
      | none => (none, S.drop b f)
      | some a => (some a, f)

def checkout (w : Nat) (R : FixedRange β) (S : Backings β φ) (p : ArenaPool β φ) :
    Option (BumpArena β) × ArenaPool β φ :=
  match p.idle with
  | a :: idle => (some a, { p with idle := idle })
  | [] =>
      let (a, f) := mintArena w R S p.factory
      (a, { p with factory := f })

def giveBack (S : Backings β φ) (a : BumpArena β) (p : ArenaPool β φ) : ArenaPool β φ :=
  let a := a.reset
  if p.idle.length < p.cap then { p with idle := a :: p.idle }
  else { p with factory := S.drop a.backing p.factory }

/-- The loop of `prewarm`, with the number of arenas that are missing. -/
def prewarmLoop (w : Nat) (R : FixedRange β) (S : Backings β φ) :
    Nat → Nat → ArenaPool β φ → Option Nat × ArenaPool β φ
  | 0, added, p => (some added, p)
  | missing + 1, added, p =>
      match mintArena w R S p.factory with
      | (none, f) => (none, { p with factory := f })
      | (some a, f) =>
          prewarmLoop w R S missing (added + 1) { p with factory := f, idle := a :: p.idle }

def prewarm (w : Nat) (R : FixedRange β) (S : Backings β φ) (n : Nat) (p : ArenaPool β φ) :
    Option Nat × ArenaPool β φ :=
  let target := min p.cap (saturatingAdd w p.idle.length n)
  prewarmLoop w R S (target - p.idle.length) 0 p

def idleCount (p : ArenaPool β φ) : Nat := p.idle.length

/-- `clear`. A `Vec` drops its elements from the first to the last. -/
def clear (S : Backings β φ) (p : ArenaPool β φ) : ArenaPool β φ :=
  { p with idle := [], factory := p.idle.foldr (fun a f => S.drop a.backing f) p.factory }

/-- `release_idle`: the ranges that reach the system. `BumpArena` forwards the methods of `OsBacked`
to its backing. -/
def releaseIdle (O : PageRelease β) (p : ArenaPool β φ) : List Block :=
  p.idle.reverse.filterMap fun a => O.releasePages (O.region a.backing) a.backing

end ArenaPool

/-- The range of a backing. -/
def FixedRange.region {β : Type} (R : FixedRange β) (b : β) : Block := ⟨R.base b, R.size b⟩

/-- The two traits agree on the range, and no more is released than was asked for. -/
structure PageRelease.Lawful {β : Type} (O : PageRelease β) (R : FixedRange β) : Prop where
  region_eq : ∀ b, O.region b = R.region b
  releasePages_subset : ∀ {b c d}, O.releasePages c b = some d → d.bytes ⊆ c.bytes

/-! ## Accounts -/

/-- A record of the backings that are alive, kept in the state of the factory. -/
structure Account {β φ : Type} (R : FixedRange β) (S : Backings β φ) (Acc : φ → List β → Prop) :
    Prop where
  perm : ∀ {f bs cs}, bs.Perm cs → Acc f bs → Acc f cs
  mint_some : ∀ {f f' b bs}, S.mint f = (some b, f') → Acc f bs → Acc f' (b :: bs)
  mint_none : ∀ {f f' bs}, S.mint f = (none, f') → Acc f bs → Acc f' bs
  drop : ∀ {f b bs}, Acc f (b :: bs) → Acc (S.drop b f) bs
  commit : ∀ {f b bs} (off len : Nat), Acc f (b :: bs) → Acc f ((R.commit off len b).2 :: bs)

namespace ArenaPool

variable {w : Nat} {β φ : Type} {R : FixedRange β} {S : Backings β φ} {Acc : φ → List β → Prop}
  {p : ArenaPool β φ} {a : BumpArena β} {f f' : φ} {bs : List β}

/-- The backings of the arenas in the pool. -/
def backings (p : ArenaPool β φ) : List β := p.idle.map BumpArena.backing

/-- The arenas in the pool are empty, and there are no more than the cap. -/
structure Sound (w : Nat) (R : FixedRange β) (p : ArenaPool β φ) : Prop where
  fresh : ∀ a ∈ p.idle, BumpArena.Sound w R (R.base a.backing) a ∧
    a.capacity = R.size a.backing ∧ a.cursor = 0
  idle_le : p.idle.length ≤ p.cap

theorem sound_new (w : Nat) (R : FixedRange β) (cap : Nat) (f : φ) : Sound w R (new cap f) where
  fresh := List.forall_mem_nil _
  idle_le := Nat.zero_le _

theorem mintArena_some (h : mintArena w R S f = (some a, f')) :
    ∃ b, S.mint f = (some b, f') ∧ BumpArena.new w R b = some a := by
  unfold mintArena at h
  split at h
  case h_1 => cases h
  case h_2 b f₁ hmint =>
      split at h
      case h_1 => cases h
      case h_2 a' hnew =>
          cases h
          exact ⟨b, hmint, hnew⟩

/-- A fresh arena is one more backing, and empty. -/
theorem minting (hA : Account R S Acc) (h : mintArena w R S f = (some a, f')) (hacc : Acc f bs) :
    Acc f' (a.backing :: bs) ∧ BumpArena.Sound w R (R.base a.backing) a ∧
      a.capacity = R.size a.backing ∧ a.cursor = 0 := by
  obtain ⟨b, hmint, hnew⟩ := mintArena_some h
  obtain ⟨hs, hcap⟩ := BumpArena.sound_new hnew
  obtain ⟨rfl, -⟩ := BumpArena.new_eq_some hnew
  exact ⟨hA.mint_some hmint hacc, hs, hcap, rfl⟩

theorem minting_none (hA : Account R S Acc) (h : mintArena w R S f = (none, f'))
    (hacc : Acc f bs) : Acc f' bs := by
  unfold mintArena at h
  split at h
  case h_1 f₁ hmint =>
      cases h
      exact hA.mint_none hmint hacc
  case h_2 b f₁ hmint =>
      split at h
      case h_1 =>
          cases h
          exact hA.drop (hA.mint_some hmint hacc)
      case h_2 => cases h

/-- **`checkout`** hands out an empty arena. -/
theorem checkout_some (hA : Account R S Acc) (hp : Sound w R p) {p' : ArenaPool β φ}
    (h : checkout w R S p = (some a, p')) (hacc : Acc p.factory (p.backings ++ bs)) :
    Sound w R p' ∧ Acc p'.factory (p'.backings ++ a.backing :: bs) ∧
      BumpArena.Sound w R (R.base a.backing) a ∧ a.capacity = R.size a.backing ∧ a.cursor = 0 := by
  unfold checkout at h
  split at h
  case h_1 a' idle hidle =>
      cases h
      have hlen := hp.idle_le
      rw [hidle, List.length_cons] at hlen
      have hfresh := hp.fresh
      rw [hidle, List.forall_mem_cons] at hfresh
      refine ⟨⟨hfresh.2, by simp only; omega⟩, ?_, hfresh.1⟩
      rw [backings, hidle, List.map_cons, List.cons_append] at hacc
      exact hA.perm List.perm_middle.symm hacc
  case h_2 hidle =>
      rcases hmint : mintArena w R S p.factory with ⟨_ | a', f⟩
      · rw [hmint] at h
        cases h
      · rw [hmint] at h
        cases h
        rw [backings, hidle, List.map_nil, List.nil_append] at hacc
        obtain ⟨hacc', hfresh⟩ := minting hA hmint hacc
        refine ⟨⟨hp.fresh, hp.idle_le⟩, ?_, hfresh⟩
        rw [backings, hidle, List.map_nil, List.nil_append]
        exact hacc'

theorem checkout_none (hA : Account R S Acc) (hp : Sound w R p) {p' : ArenaPool β φ}
    (h : checkout w R S p = (none, p')) (hacc : Acc p.factory (p.backings ++ bs)) :
    Sound w R p' ∧ Acc p'.factory (p'.backings ++ bs) := by
  unfold checkout at h
  split at h
  case h_1 => cases h
  case h_2 hidle =>
      rcases hmint : mintArena w R S p.factory with ⟨_ | a', f⟩
      · rw [hmint] at h
        cases h
        exact ⟨⟨hp.fresh, hp.idle_le⟩, minting_none hA hmint hacc⟩
      · rw [hmint] at h
        cases h

/-- **`giveBack`** keeps the arena, empty, or drops its backing. -/
theorem giveBack_spec (hA : Account R S Acc) (hp : Sound w R p)
    (hs : BumpArena.Sound w R (R.base a.backing) a) (hcap : a.capacity = R.size a.backing)
    (hacc : Acc p.factory (p.backings ++ a.backing :: bs)) :
    Sound w R (giveBack S a p) ∧
      Acc (giveBack S a p).factory ((giveBack S a p).backings ++ bs) := by
  have hfront := hA.perm List.perm_middle hacc
  unfold giveBack
  simp only
  split
  case isTrue hlt =>
      refine ⟨⟨List.forall_mem_cons.mpr ⟨⟨⟨rfl, hs.end_lt, Nat.zero_le _⟩, hcap, rfl⟩, hp.fresh⟩, ?_⟩,
        hfront⟩
      exact hlt
  case isFalse => exact ⟨⟨hp.fresh, hp.idle_le⟩, hA.drop hfront⟩

theorem prewarmLoop_spec (hA : Account R S Acc) {missing added : Nat} (hp : Sound w R p)
    (hroom : p.idle.length + missing ≤ p.cap) (hacc : Acc p.factory (p.backings ++ bs)) :
    let r := prewarmLoop w R S missing added p
    Sound w R r.2 ∧ Acc r.2.factory (r.2.backings ++ bs) ∧
      (∀ n, r.1 = some n → n = added + missing ∧ r.2.idle.length = p.idle.length + missing) := by
  induction missing generalizing added p with
  | zero => exact ⟨hp, hacc, fun n hn => ⟨(Option.some.inj hn).symm, rfl⟩⟩
  | succ missing ih =>
      rw [prewarmLoop]
      rcases hmint : mintArena w R S p.factory with ⟨_ | a, f⟩
      · exact ⟨⟨hp.fresh, hp.idle_le⟩, minting_none hA hmint hacc, fun n hn => (by cases hn)⟩
      · obtain ⟨hacc', hfresh⟩ := minting hA hmint hacc
        simp only
        have hlen : (a :: p.idle).length = p.idle.length + 1 := List.length_cons
        have hle : (a :: p.idle).length ≤ p.cap := by omega
        have hp' : Sound w R { p with factory := f, idle := a :: p.idle } :=
          ⟨List.forall_mem_cons.mpr ⟨hfresh, hp.fresh⟩, hle⟩
        have hroom' : (a :: p.idle).length + missing ≤ p.cap := by omega
        obtain ⟨hsound, hacc, hcount⟩ := @ih _ (added + 1) hp' hroom' hacc'
        refine ⟨hsound, hacc, fun n hn => ?_⟩
        obtain ⟨hn', hlen'⟩ := hcount n hn
        rw [hlen']
        simp only
        exact ⟨by omega, by omega⟩

/-- **`prewarm`** fills the pool up to its cap at most, and keeps what it minted if it fails. -/
theorem prewarm_spec (hA : Account R S Acc) (n : Nat) (hp : Sound w R p)
    (hacc : Acc p.factory (p.backings ++ bs)) :
    Sound w R (prewarm w R S n p).2 ∧
      Acc (prewarm w R S n p).2.factory ((prewarm w R S n p).2.backings ++ bs) := by
  have hle := hp.idle_le
  have hroom : p.idle.length + (min p.cap (saturatingAdd w p.idle.length n) - p.idle.length) ≤
      p.cap := by omega
  obtain ⟨hsound, hacc', -⟩ := prewarmLoop_spec hA hp hroom hacc
  exact ⟨hsound, hacc'⟩

/-- **`clear`** drops all the arenas in the pool. -/
theorem clear_spec (hA : Account R S Acc) (hacc : Acc p.factory (p.backings ++ bs)) :
    Sound w R (clear S p) ∧ Acc (clear S p).factory bs := by
  refine ⟨⟨List.forall_mem_nil _, Nat.zero_le _⟩, ?_⟩
  unfold backings at hacc
  unfold clear
  simp only
  generalize p.idle = idle at hacc
  generalize p.factory = f at hacc
  induction idle generalizing bs with
  | nil => exact hacc
  | cons a idle ih => exact hA.drop (ih (hA.perm List.perm_middle.symm hacc))

end ArenaPool

end ForgeAlloc
