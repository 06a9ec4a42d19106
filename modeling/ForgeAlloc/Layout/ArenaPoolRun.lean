import ForgeAlloc.Layout.ArenaPool
import ForgeAlloc.Library.InFlight

set_option autoImplicit false

/-! # Runs of an `ArenaPool`

Clients take arenas out of a pool, allocate in them and write to their blocks, and give them back or
drop them; the owner of the pool fills it ahead, empties it and releases the pages of idle arenas.
All arenas share one memory. An arena that is out is an `ArenaRun`, with the memory as its own last
operation left it, so that `Inv.seen` says that nobody else has written to its blocks.
-/

namespace ForgeAlloc

open MachineInt ByteMemory

/-! ## What an arena writes -/

namespace ArenaRun

variable {w : Nat} {β : Type} {R : FixedRange β} {base capacity : Nat} {s s' : ArenaRun β}

def backing (s : ArenaRun β) : β := s.heap.alloc.backing

/-- The run of an arena that nothing was allocated from. -/
theorem inv_init_of_sound {a : BumpArena β} (hs : BumpArena.Sound w R base a)
    (hcap : a.capacity = capacity) (m : Mem) : Inv w R base capacity (init a m) where
  sound := hs
  capacity_eq := hcap
  aligned := List.forall_mem_nil _
  within := List.forall_mem_nil _
  disjoint := List.forall_mem_nil _
  same_ptr := List.forall_mem_nil _
  id_lt := List.forall_mem_nil _
  mark_lt := List.forall_mem_nil _
  below_mark := List.forall_mem_nil _

/-- The invariant does not look at the memory. -/
theorem Inv.withMem (hi : Inv w R base capacity s) (m : Mem) :
    Inv w R base capacity { s with heap := ⟨s.heap.alloc, m⟩ } :=
  hi.congr hi.sound rfl rfl

/-- The backing is the one before, or what a commit has made of it. -/
def Committed (R : FixedRange β) (b b' : β) : Prop := b' = b ∨ ∃ off len, b' = (R.commit off len b).2

theorem committed_reserve (w : Nat) (size align : Nat) (a : BumpArena β) :
    Committed R a.backing (BumpArena.reserve w R size align a).2.backing := by
  simp only [BumpArena.reserve]
  split
  · exact Or.inl rfl
  case h_2 off fin _ =>
      split
      case h_1 b hb => exact Or.inr ⟨off, size, by rw [hb]⟩
      case h_2 b hb => exact Or.inr ⟨off, size, by rw [hb]⟩

theorem committed_allocate (l : NonZeroLayout w) (h : Heap (BumpArena β)) :
    Committed R h.alloc.backing (BumpArena.allocate R l h).2.alloc.backing := by
  have hres := committed_reserve (R := R) w l.size l.align h.alloc
  unfold BumpArena.allocate
  split
  case h_1 a heq => rwa [heq] at hres
  case h_2 p a heq => rwa [heq] at hres

theorem committed_relocate (ptr : Nat) (old new : NonZeroLayout w) (h : Heap (BumpArena β)) :
    Committed R h.alloc.backing (BumpArena.relocate R ptr old new h).2.alloc.backing := by
  have halloc := committed_allocate (R := R) new h
  unfold BumpArena.relocate
  split
  case h_1 h' heq => rwa [heq] at halloc
  case h_2 dst h' heq => rwa [heq] at halloc

theorem committed_grow (ptr : Nat) (old new : NonZeroLayout w) (h : Heap (BumpArena β)) :
    Committed R h.alloc.backing (BumpArena.grow R ptr old new h).2.alloc.backing := by
  simp only [BumpArena.grow]
  split
  · split
    · exact Or.inl rfl
    · split
      · split
        case h_1 b hb => exact Or.inr ⟨_, _, by rw [hb]⟩
        case h_2 b hb => exact Or.inr ⟨_, _, by rw [hb]⟩
      · exact committed_relocate ptr old new h
  · exact committed_relocate ptr old new h

theorem backing_record (s : ArenaRun β) (id align : Nat) (r : Option Block)
    (h : Heap (BumpArena β)) : (s.record id align r h).backing = h.alloc.backing := by
  cases r <;> rfl

theorem mem_record (s : ArenaRun β) (id align : Nat) (r : Option Block)
    (h : Heap (BumpArena β)) : (s.record id align r h).heap.mem = h.mem := by
  cases r <;> rfl

theorem committed_allocSliceCopy (T : RustType w) (src : Slice T) (h : Heap (BumpArena β)) :
    Committed R h.alloc.backing (BumpArena.allocSliceCopy R T src h).2.alloc.backing := by
  unfold BumpArena.allocSliceCopy
  split
  · exact Or.inl rfl
  · split
    · exact Or.inl rfl
    case h_2 l _ =>
        have halloc := committed_allocate (R := R) l h
        split
        case h_1 h' heq => rwa [heq] at halloc
        case h_2 dst h' heq => rwa [heq] at halloc

/-- An operation commits a part of the range, or leaves the backing alone. -/
theorem committed_step (op : ArenaOp w) (hstep : step R s op = some s') :
    Committed R s.backing s'.backing := by
  cases op with
  | allocate l =>
      cases hstep
      rw [backing_record]
      exact committed_allocate l s.heap
  | allocUninit T =>
      cases hstep
      rw [backing_record]
      show Committed R s.backing (BumpArena.allocUninit R T s.heap.alloc).2.backing
      unfold BumpArena.allocUninit
      split
      · exact Or.inl rfl
      · exact committed_reserve w T.size T.align s.heap.alloc
  | allocSliceCopy T src =>
      cases hstep
      rw [backing_record]
      exact committed_allocSliceCopy T src s.heap
  | grow e new =>
      simp only [step] at hstep
      split at hstep
      · cases hstep
      case h_2 old _ =>
          split at hstep
          · cases hstep
            rw [backing_record]
            exact committed_grow e.block.ptr old new s.heap
          · cases hstep
  | mark =>
      cases hstep
      exact Or.inl rfl
  | rewindTo m =>
      simp only [step] at hstep
      split at hstep
      · cases hstep
        exact Or.inl rfl
      · cases hstep
  | reset =>
      cases hstep
      exact Or.inl rfl

theorem Committed.region_eq (hR : R.Lawful) {b b' : β} (h : Committed R b b') :
    R.region b' = R.region b := by
  rcases h with rfl | ⟨off, len, rfl⟩
  · rfl
  · rw [FixedRange.region, FixedRange.region, hR.base_commit, hR.size_commit]

variable {l old new : NonZeroLayout w} {ptr x : Nat}

theorem mem_allocate (hR : R.Lawful) (hi : Inv w R base capacity s) (l : NonZeroLayout w) :
    (BumpArena.allocate R l s.heap).2.mem = s.heap.mem := by
  rcases heq : BumpArena.allocate R l s.heap with ⟨_ | b, h⟩
  · obtain ⟨-, -, -, hmem⟩ := BumpArena.allocate_none hR hi.sound heq
    exact hmem
  · obtain ⟨-, -, -, -, -, hmem⟩ := BumpArena.allocate_some hR hi.sound heq
    exact hmem

/-- A fresh block is inside the region. -/
theorem within_allocate (hR : R.Lawful) (hi : Inv w R base capacity s) {b : Block}
    {h : Heap (BumpArena β)} (halloc : BumpArena.allocate R l s.heap = (some b, h)) :
    base ≤ b.ptr ∧ b.ptr + l.size ≤ base + capacity ∧ h.mem = s.heap.mem := by
  obtain ⟨hp, hlen, hend, hs, hcap, hmem⟩ := BumpArena.allocate_some hR hi.sound halloc
  have hge : base + s.heap.alloc.cursor ≤ b.ptr := hp ▸ le_alignUp l.align_pos
  have hle := hs.cursor_le
  rw [hcap, hi.capacity_eq] at hle
  exact ⟨by omega, by omega, hmem⟩

theorem mem_relocate (hR : R.Lawful) (hi : Inv w R base capacity s) (hsize : old.size ≤ new.size)
    (hx : x ∉ Set.Ico base (base + capacity)) :
    (BumpArena.relocate R ptr old new s.heap).2.mem x = s.heap.mem x := by
  rcases heq : BumpArena.relocate R ptr old new s.heap with ⟨_ | b, h⟩
  · obtain ⟨-, -, -, hmem⟩ := BumpArena.allocate_none hR hi.sound (BumpArena.relocate_none heq)
    exact congrFun hmem x
  · obtain ⟨h₁, halloc, rfl⟩ := BumpArena.relocate_some heq
    obtain ⟨hge, hle, hmem⟩ := within_allocate hR hi halloc
    rw [Set.mem_Ico] at hx
    show copyBytes h₁.mem ptr b.ptr old.size x = _
    rw [copyBytes_of_not_mem (by omega), hmem]

theorem mem_allocSliceCopy (hR : R.Lawful) (hi : Inv w R base capacity s) (T : RustType w)
    (src : Slice T) (hx : x ∉ Set.Ico base (base + capacity)) :
    (BumpArena.allocSliceCopy R T src s.heap).2.mem x = s.heap.mem x := by
  unfold BumpArena.allocSliceCopy
  split
  · rfl
  · split
    · rfl
    case h_2 l hl =>
        obtain ⟨hsize, -⟩ := NonZeroLayout.array_eq_some hl
        split
        case h_1 h heq =>
            obtain ⟨-, -, -, hmem⟩ := BumpArena.allocate_none hR hi.sound heq
            exact congrFun hmem x
        case h_2 dst h heq =>
            obtain ⟨hge, hle, hmem⟩ := within_allocate hR hi heq
            have hbytes := src.length_bytes
            rw [Set.mem_Ico] at hx
            show writeBytes h.mem dst.ptr src.bytes x = _
            rw [writeBytes_of_not_mem (by omega), hmem]

theorem mem_grow (hR : R.Lawful) (hi : Inv w R base capacity s) (hptr : ptr < 2 ^ w)
    (hsize : old.size ≤ new.size) (hx : x ∉ Set.Ico base (base + capacity)) :
    (BumpArena.grow R ptr old new s.heap).2.mem x = s.heap.mem x := by
  by_cases hext : BumpArena.Extends R ptr old.size new.size s.heap.alloc
  · rw [BumpArena.grow_of_extends hi.sound hext]
    split <;> rfl
  · rcases BumpArena.grow_of_not_extends hi.sound hptr hext with hnone | hrel
    · rw [hnone]
    · rw [hrel]
      exact mem_relocate hR hi hsize hx

/-- **An operation writes inside the region** of its arena only. -/
theorem Inv.mem_step (hR : R.Lawful) (hi : Inv w R base capacity s) (op : ArenaOp w)
    (hstep : step R s op = some s') (hx : x ∉ Set.Ico base (base + capacity)) :
    s'.heap.mem x = s.heap.mem x := by
  cases op with
  | allocate l =>
      obtain rfl := Option.some.inj hstep
      rw [mem_record]
      exact congrFun (mem_allocate hR hi l) x
  | allocUninit T =>
      obtain rfl := Option.some.inj hstep
      rw [mem_record]
  | allocSliceCopy T src =>
      obtain rfl := Option.some.inj hstep
      rw [mem_record]
      exact mem_allocSliceCopy hR hi T src hx
  | grow e new =>
      simp only [step] at hstep
      split at hstep
      · cases hstep
      case h_2 old hold =>
          obtain ⟨hlen, -⟩ := NonZeroLayout.fromSizeAlign_eq_some.mp hold
          split at hstep
          case isFalse => cases hstep
          case isTrue hguard =>
              obtain rfl := Option.some.inj hstep
              rw [mem_record]
              have hpos : 0 < e.block.len := hlen ▸ old.size_pos
              obtain ⟨-, hle⟩ := (Block.within_iff hpos).mp (hi.within e hguard.1)
              have hlt := hi.sound.end_lt
              have hcur := hi.sound.cursor_le
              exact mem_grow hR hi (by omega) hguard.2.2 hx
  | mark =>
      cases hstep
      rfl
  | rewindTo m =>
      simp only [step] at hstep
      split at hstep
      · cases hstep
        rfl
      · cases hstep
  | reset =>
      cases hstep
      rfl

end ArenaRun

/-! ## The machine -/

structure PoolRun (β φ : Type) where
  pool : ArenaPool β φ
  /-- The arenas that are out. -/
  out : List (ArenaRun β)
  mem : Mem

/-- Numbers are those of arenas that are out. -/
inductive PoolOp (w : Nat)
  | checkout
  | use (i : Nat) (op : ArenaOp w)
  | write (i : Nat) (e : Entry) (bytes : List UInt8)
  | giveBack (i : Nat)
  /-- A client drops its arena. -/
  | discard (i : Nat)
  | prewarm (n : Nat)
  | clear
  /-- Released pages read as the system likes. -/
  | releaseIdle (after : Mem)
  /-- The bytes that are in no arena that is out change, as do those of a fresh mapping. -/
  | elsewhere (after : Mem)

namespace PoolRun

open ArenaPool

variable {w : Nat} {β φ : Type} {R : FixedRange β} {S : Backings β φ}
  {O : PageRelease β} {Acc : φ → List β → Prop} {s s' : PoolRun β φ}
  {ops : List (PoolOp w)} {i : Nat} {r r' : ArenaRun β} {x : Nat}

def init (cap : Nat) (f : φ) (m : Mem) : PoolRun β φ := ⟨ArenaPool.new cap f, [], m⟩

/-- The arena as its client finds it: in the memory of all. -/
def shared (s : PoolRun β φ) (r : ArenaRun β) : ArenaRun β := { r with heap := ⟨r.heap.alloc, s.mem⟩ }

/-- The arena number `i` has become `r`. -/
def replace (s : PoolRun β φ) (i : Nat) (r : ArenaRun β) : PoolRun β φ :=
  ⟨s.pool, r :: s.out.eraseIdx i, r.heap.mem⟩

/-- The bytes of `bs` are overwritten. -/
def overwrite (bs : List Block) (after m : Mem) : Mem :=
  fun x => if ∃ b ∈ bs, x ∈ b.bytes then after x else m x

def step (w : Nat) (R : FixedRange β) (S : Backings β φ) (O : PageRelease β)
    (s : PoolRun β φ) : PoolOp w → Option (PoolRun β φ)
  | .checkout =>
      let (a, pool) := checkout w R S s.pool
      some ⟨pool, (a.map fun a => ArenaRun.init a s.mem).toList ++ s.out, s.mem⟩
  | .use i op => s.out[i]?.bind fun r => (ArenaRun.step R (s.shared r) op).map (s.replace i)
  | .write i e bytes =>
      match s.out[i]? with
      | none => none
      | some r =>
          if e ∈ r.ledger ∧ bytes.length ≤ e.block.len then
            let mem := writeBytes s.mem e.block.ptr bytes
            some (s.replace i { r with heap := ⟨r.heap.alloc, mem⟩ })
          else none
  | .giveBack i =>
      s.out[i]?.map fun r => ⟨giveBack S r.heap.alloc s.pool, s.out.eraseIdx i, s.mem⟩
  | .discard i =>
      s.out[i]?.map fun r =>
        ⟨{ s.pool with factory := S.drop r.backing s.pool.factory }, s.out.eraseIdx i, s.mem⟩
  | .prewarm n => some { s with pool := (prewarm w R S n s.pool).2 }
  | .clear => some { s with pool := clear S s.pool }
  | .releaseIdle after =>
      some { s with mem := overwrite (releaseIdle O s.pool) after s.mem }
  | .elsewhere after =>
      some { s with mem := overwrite (s.out.map fun r => R.region r.backing) s.mem after }

/-! ## The invariant -/

/-- The backings of the arenas that are out. -/
def backings (s : PoolRun β φ) : List β := s.out.map ArenaRun.backing

/-- The blocks of a client hold what its last operation left there. -/
def Seen (m : Mem) (r : ArenaRun β) : Prop :=
  ∀ e ∈ r.ledger, ∀ x ∈ e.block.bytes, m x = r.heap.mem x

/-- The invariant of an arena in its own range. -/
def Sound (w : Nat) (R : FixedRange β) (r : ArenaRun β) : Prop :=
  ArenaRun.Inv w R (R.base r.backing) (R.size r.backing) r

structure Inv (w : Nat) (R : FixedRange β) (Acc : φ → List β → Prop) (s : PoolRun β φ) : Prop where
  pool : ArenaPool.Sound w R s.pool
  acc : Acc s.pool.factory (s.pool.backings ++ s.backings)
  sound : ∀ r ∈ s.out, Sound w R r
  seen : ∀ r ∈ s.out, Seen s.mem r

/-- No two backings overlap. -/
def Separate (R : FixedRange β) (bs : List β) : Prop :=
  bs.Pairwise fun b c => Disjoint (R.region b).bytes (R.region c).bytes

theorem Sound.subset_region (h : Sound w R r) {e : Entry} (he : e ∈ r.ledger) :
    e.block.bytes ⊆ (R.region r.backing).bytes := by
  have hle := h.sound.cursor_le
  rw [h.capacity_eq] at hle
  exact (h.within e he).mono hle

theorem Sound.congr (h : ArenaRun.Inv w R (R.base r.backing) (R.size r.backing) r')
    (hregion : R.region r'.backing = R.region r.backing) : Sound w R r' := by
  obtain ⟨hbase, hsize⟩ := Block.mk.inj hregion
  rw [Sound, hbase, hsize]
  exact h

theorem Seen.congr {m m' : Mem} (h : Seen m r) (hs : Sound w R r)
    (hm : ∀ x ∈ (R.region r.backing).bytes, m' x = m x) : Seen m' r := fun e he x hx =>
  (hm x (hs.subset_region he hx)).trans (h e he x hx)

/-- The arena number `i` first. -/
theorem Inv.front (hA : Account R S Acc) (hi : Inv w R Acc s) (hr : s.out[i]? = some r) :
    Acc s.pool.factory (s.pool.backings ++ r.backing :: (s.out.eraseIdx i).map ArenaRun.backing) :=
  hA.perm (((InFlight.perm_cons_eraseIdx hr).map ArenaRun.backing).append_left _) hi.acc

theorem Inv.disjoint_others (hA : Account R S Acc) (hsep : ∀ {f bs}, Acc f bs → Separate R bs)
    (hi : Inv w R Acc s) (hr : s.out[i]? = some r) (hr' : r' ∈ s.out.eraseIdx i) :
    Disjoint (R.region r.backing).bytes (R.region r'.backing).bytes := by
  have hpair := (List.pairwise_append.mp (hsep (hi.front hA hr))).2.1
  exact (List.pairwise_cons.mp hpair).1 r'.backing (List.mem_map_of_mem hr')

theorem Inv.disjoint_idle (hsep : ∀ {f bs}, Acc f bs → Separate R bs) (hi : Inv w R Acc s)
    {a : BumpArena β} (ha : a ∈ s.pool.idle) (hr : r ∈ s.out) :
    Disjoint (R.region a.backing).bytes (R.region r.backing).bytes :=
  (List.pairwise_append.mp (hsep hi.acc)).2.2 a.backing (List.mem_map_of_mem ha) r.backing
    (List.mem_map_of_mem hr)

/-! ## Every step keeps it -/

/-- The client of the arena number `i` has done something to it and its region. -/
theorem Inv.replace (hR : R.Lawful) (hA : Account R S Acc)
    (hsep : ∀ {f bs}, Acc f bs → Separate R bs) (hi : Inv w R Acc s) (hr : s.out[i]? = some r)
    (hcommitted : ArenaRun.Committed R r.backing r'.backing)
    (hsound : ArenaRun.Inv w R (R.base r.backing) (R.size r.backing) r')
    (hmem : ∀ x ∉ (R.region r.backing).bytes, r'.heap.mem x = s.mem x) :
    Inv w R Acc (s.replace i r') := by
  have hregion := hcommitted.region_eq hR
  have hfront := hA.perm List.perm_middle (hi.front hA hr)
  refine ⟨hi.pool, ?_, ?_, ?_⟩
  · have hback : Acc s.pool.factory
        (r'.backing :: (s.pool.backings ++ (s.out.eraseIdx i).map ArenaRun.backing)) := by
      rcases hcommitted with hsame | ⟨off, len, hcommit⟩
      · rw [hsame]
        exact hfront
      · rw [hcommit]
        exact hA.commit off len hfront
    exact hA.perm List.perm_middle.symm hback
  · refine List.forall_mem_cons.mpr ⟨Sound.congr hsound hregion, fun r₁ hr₁ => ?_⟩
    exact hi.sound r₁ (List.mem_of_mem_eraseIdx hr₁)
  · refine List.forall_mem_cons.mpr ⟨fun e _ x _ => rfl, fun r₁ hr₁ => ?_⟩
    have hr₁' := List.mem_of_mem_eraseIdx hr₁
    refine (hi.seen r₁ hr₁').congr (hi.sound r₁ hr₁') fun x hx => hmem x fun hx' => ?_
    exact Set.disjoint_left.mp (hi.disjoint_others hA hsep hr hr₁) hx' hx

/-- The arena number `i` has left. -/
theorem Inv.leave {pool : ArenaPool β φ} (hi : Inv w R Acc s) (hpool : ArenaPool.Sound w R pool)
    (hacc : Acc pool.factory (pool.backings ++ (s.out.eraseIdx i).map ArenaRun.backing)) :
    Inv w R Acc ⟨pool, s.out.eraseIdx i, s.mem⟩ where
  pool := hpool
  acc := hacc
  sound := fun r hr => hi.sound r (List.mem_of_mem_eraseIdx hr)
  seen := fun r hr => hi.seen r (List.mem_of_mem_eraseIdx hr)

/-- What happens outside the arenas that are out. -/
theorem Inv.withMem (hi : Inv w R Acc s) {m : Mem}
    (hm : ∀ r ∈ s.out, ∀ x ∈ (R.region r.backing).bytes, m x = s.mem x) :
    Inv w R Acc { s with mem := m } where
  pool := hi.pool
  acc := hi.acc
  sound := hi.sound
  seen := fun r hr => (hi.seen r hr).congr (hi.sound r hr) (hm r hr)

theorem overwrite_of_forall {bs : List Block} {after m : Mem} (h : ∀ b ∈ bs, x ∉ b.bytes) :
    overwrite bs after m x = m x := by
  refine if_neg ?_
  rintro ⟨b, hb, hx⟩
  exact h b hb hx

theorem overwrite_of_mem {bs : List Block} {after m : Mem} {b : Block} (hb : b ∈ bs)
    (hx : x ∈ b.bytes) : overwrite bs after m x = after x := if_pos ⟨b, hb, hx⟩

/-- What is released lies in an arena of the pool. -/
theorem mem_releaseIdle (hO : O.Lawful R) {p : ArenaPool β φ} {c : Block}
    (hc : c ∈ releaseIdle O p) : ∃ a ∈ p.idle, c.bytes ⊆ (R.region a.backing).bytes := by
  obtain ⟨a, ha, hsome⟩ := List.mem_filterMap.mp hc
  rw [List.mem_reverse] at ha
  refine ⟨a, ha, (hO.releasePages_subset hsome).trans (subset_of_eq ?_)⟩
  rw [hO.region_eq]

theorem inv_init {f : φ} (hacc : Acc f []) (cap : Nat) (m : Mem) :
    Inv w R Acc (init cap f m) where
  pool := sound_new w R cap f
  acc := hacc
  sound := List.forall_mem_nil _
  seen := List.forall_mem_nil _

theorem inv_step (hR : R.Lawful) (hA : Account R S Acc)
    (hsep : ∀ {f bs}, Acc f bs → Separate R bs)
    (hO : O.Lawful R) (op : PoolOp w)
    (hi : Inv w R Acc s) (hstep : step w R S O s op = some s') : Inv w R Acc s' := by
  cases op with
  | checkout =>
      simp only [step] at hstep
      rcases hcall : checkout w R S s.pool with ⟨_ | a, pool⟩
      · rw [hcall] at hstep
        cases hstep
        obtain ⟨hpool, hacc⟩ := checkout_none hA hi.pool hcall hi.acc
        exact ⟨hpool, hacc, hi.sound, hi.seen⟩
      · rw [hcall] at hstep
        cases hstep
        obtain ⟨hpool, hacc, hsound, hcap, -⟩ := checkout_some hA hi.pool hcall hi.acc
        have hempty : Sound w R (ArenaRun.init a s.mem) :=
          ArenaRun.inv_init_of_sound hsound hcap s.mem
        exact ⟨hpool, hacc, List.forall_mem_cons.mpr ⟨hempty, hi.sound⟩,
          List.forall_mem_cons.mpr ⟨List.forall_mem_nil _, hi.seen⟩⟩
  | use i op =>
      obtain ⟨r, hr, hmap⟩ := Option.bind_eq_some_iff.mp hstep
      obtain ⟨r', hop, rfl⟩ := Option.map_eq_some_iff.mp hmap
      have hshared := (hi.sound r (List.mem_of_getElem? hr)).withMem s.mem
      refine hi.replace hR hA hsep hr (ArenaRun.committed_step (s := s.shared r) op hop)
        (ArenaRun.inv_step hR op hshared hop) fun x hx => ?_
      exact hshared.mem_step hR op hop hx
  | write i e bytes =>
      simp only [step] at hstep
      split at hstep
      case h_1 => cases hstep
      case h_2 r hr =>
          split at hstep
          case isFalse => cases hstep
          case isTrue hguard =>
              cases hstep
              have hsound := hi.sound r (List.mem_of_getElem? hr)
              refine hi.replace hR hA hsep hr (Or.inl rfl) (hsound.withMem _) fun x hx => ?_
              refine writeBytes_of_not_mem fun hin => hx (hsound.subset_region hguard.1 ?_)
              rw [Block.mem_bytes]
              omega
  | giveBack i =>
      obtain ⟨r, hr, rfl⟩ := Option.map_eq_some_iff.mp hstep
      have hsound := hi.sound r (List.mem_of_getElem? hr)
      obtain ⟨hpool, hacc⟩ :=
        giveBack_spec hA hi.pool hsound.sound hsound.capacity_eq (hi.front hA hr)
      exact hi.leave hpool hacc
  | discard i =>
      obtain ⟨r, hr, rfl⟩ := Option.map_eq_some_iff.mp hstep
      have hacc := hA.drop (hA.perm List.perm_middle (hi.front hA hr))
      exact hi.leave ⟨hi.pool.fresh, hi.pool.idle_le⟩ hacc
  | prewarm n =>
      cases hstep
      obtain ⟨hpool, hacc⟩ := prewarm_spec hA n hi.pool hi.acc
      exact ⟨hpool, hacc, hi.sound, hi.seen⟩
  | clear =>
      cases hstep
      obtain ⟨hpool, hacc⟩ := clear_spec (w := w) hA hi.acc
      exact ⟨hpool, hacc, hi.sound, hi.seen⟩
  | releaseIdle after =>
      cases hstep
      refine hi.withMem fun r hr x hx => overwrite_of_forall fun c hc hxc => ?_
      obtain ⟨a, ha, hsub⟩ := mem_releaseIdle hO hc
      exact Set.disjoint_left.mp (hi.disjoint_idle hsep ha hr) (hsub hxc) hx
  | elsewhere after =>
      cases hstep
      exact hi.withMem fun r hr x hx => overwrite_of_mem (List.mem_map_of_mem hr) hx

theorem inv_run (hR : R.Lawful) (hA : Account R S Acc)
    (hsep : ∀ {f bs}, Acc f bs → Separate R bs)
    (hO : O.Lawful R) {cap : Nat} {f : φ} {m : Mem}
    (hacc : Acc f []) (hrun : Machine.run (step w R S O) (init cap f m) ops = some s) :
    Inv w R Acc s :=
  Machine.run_invariant (fun _ op _ hi hstep => inv_step hR hA hsep hO op hi hstep)
    (inv_init hacc cap m) hrun

end PoolRun

end ForgeAlloc
