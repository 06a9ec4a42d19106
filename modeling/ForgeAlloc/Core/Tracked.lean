import ForgeAlloc.Core.OwnedRange
import ForgeAlloc.Core.Recording

set_option autoImplicit false

/-! # The blocks that a program holds

A program that keeps the pointer and the layout of every block it has, and hands them back, is
*tracked*: what is out of the allocator is what the program holds.
-/

namespace ForgeAlloc

open ByteMemory

variable {w : Nat} {σ : Type}

/-- The tickets `ts` are those of the blocks that are out, except for the blocks in `K`, which the
program no longer holds. -/
def Tracked (Inv : Heap σ → Set (Grant w) → Prop) (K : Set (Grant w)) (ts : List (Ticket w))
    (h : Heap σ) : Prop :=
  ∃ G : List (Grant w), G.Nodup ∧ ts.Perm (G.map Grant.ticket) ∧ (∀ g ∈ G, g ∉ K) ∧
    Inv h ({g | g ∈ G} ∪ K)

variable {A : Allocator w σ} {Inv : Heap σ → Set (Grant w) → Prop} {K : Set (Grant w)}
  {t : Ticket w} {ts ts' : List (Ticket w)} {h h' : Heap σ} {l : NonZeroLayout w} {b : Block}

theorem tracked_nil (hinv : Inv h K) : Tracked Inv K [] h := by
  refine ⟨[], List.nodup_nil, List.Perm.nil, List.forall_mem_nil _, ?_⟩
  have hset : {g : Grant w | g ∈ ([] : List (Grant w))} ∪ K = K := by simp
  rw [hset]
  exact hinv

theorem Tracked.inv_of_nil (ht : Tracked Inv K [] h) : Inv h K := by
  obtain ⟨G, -, hperm, -, hinv⟩ := ht
  have hG : G = [] := List.map_eq_nil_iff.mp hperm.nil_eq.symm
  rw [hG] at hinv
  simpa using hinv

theorem Tracked.perm (ht : Tracked Inv K ts h) (hperm : ts'.Perm ts) : Tracked Inv K ts' h := by
  obtain ⟨G, hnodup, hts, hK, hinv⟩ := ht
  exact ⟨G, hnodup, hperm.trans hts, hK, hinv⟩

/-- A new block is none of those that are held. -/
theorem Tracked.issued (hA : HonoursCore A Inv) (ht : Tracked Inv K ts h)
    (hcall : ∀ {L}, Inv h L → Issued Inv L h h' b l) :
    Tracked Inv K (ts ++ [(b.ptr, l)]) h' ∧ ∀ t ∈ ts, t.1 ≠ b.ptr := by
  obtain ⟨G, hnodup, hts, hK, hinv⟩ := ht
  have hiss := hcall hinv
  have hpos : 0 < b.len := (hA.satisfies hiss.inv (Set.mem_insert _ _)).len_pos
  have hnew : ∀ g ∈ {g | g ∈ G} ∪ K, g.block.ptr ≠ b.ptr := by
    intro g hg heq
    have hdisj := hiss.fresh g hg
    have hlen := (hA.satisfies hinv hg).len_pos
    rw [Block.disjoint_iff] at hdisj
    omega
  refine ⟨⟨⟨b, l⟩ :: G, ?_, ?_, ?_, ?_⟩, fun t hmem => ?_⟩
  · exact List.nodup_cons.mpr ⟨fun hmem => hnew _ (Or.inl hmem) rfl, hnodup⟩
  · exact (List.perm_append_singleton _ ts).trans (hts.cons _)
  · exact List.forall_mem_cons.mpr ⟨fun hmem => hnew _ (Or.inr hmem) rfl, hK⟩
  · rw [List.setOfPred_mem_cons, Set.insert_union]
    exact hiss.inv
  · obtain ⟨g, hg, rfl⟩ := List.mem_map.mp (hts.mem_iff.mp hmem)
    exact hnew g (Or.inl hg)

theorem Tracked.allocate_some (hA : HonoursCore A Inv) (ht : Tracked Inv K ts h)
    (hcall : A.allocate l h = (some b, h')) :
    Tracked Inv K (ts ++ [(b.ptr, l)]) h' ∧ ∀ t ∈ ts, t.1 ≠ b.ptr :=
  ht.issued hA fun hinv => hA.allocate_some hinv hcall

theorem Tracked.unchanged (ht : Tracked Inv K ts h) (hcall : ∀ {L}, Inv h L → Unchanged Inv L h h') :
    Tracked Inv K ts h' := by
  obtain ⟨G, hnodup, hts, hK, hinv⟩ := ht
  exact ⟨G, hnodup, hts, hK, (hcall hinv).inv⟩

theorem Tracked.allocate_none (hA : HonoursCore A Inv) (ht : Tracked Inv K ts h)
    (hcall : A.allocate l h = (none, h')) : Tracked Inv K ts h' :=
  ht.unchanged fun hinv => hA.allocate_none hinv hcall

/-- The block behind a ticket. -/
theorem Tracked.exists_grant (ht : Tracked Inv K (t :: ts) h) :
    ∃ g : Grant w, g.ticket = t ∧ g ∉ K ∧ ∃ G : List (Grant w), (g :: G).Nodup ∧
      ts.Perm (G.map Grant.ticket) ∧ (∀ g' ∈ G, g' ∉ K) ∧ Inv h ({g' | g' ∈ g :: G} ∪ K) := by
  obtain ⟨G, hnodup, hts, hK, hinv⟩ := ht
  obtain ⟨g, hg, rfl⟩ := List.mem_map.mp (hts.mem_iff.mp List.mem_cons_self)
  have hperm : G.Perm (g :: G.erase g) := List.perm_cons_erase hg
  refine ⟨g, rfl, hK g hg, G.erase g, hperm.nodup hnodup, ?_, ?_, ?_⟩
  · exact (hts.trans (hperm.map Grant.ticket)).cons_inv
  · exact fun g' hg' => hK g' (List.mem_of_mem_erase hg')
  · have hset : {g' | g' ∈ g :: G.erase g} = {g' | g' ∈ G} := by
      ext g'
      exact hperm.mem_iff.symm
    rw [hset]
    exact hinv

/-- The block behind a ticket is freed. -/
theorem Tracked.deallocate (hA : HonoursCore A Inv) (ht : Tracked Inv K (t :: ts) h) :
    Tracked Inv K ts (A.deallocate t.1 t.2 h) := by
  obtain ⟨g, rfl, hgK, G, hnodup, hts, hK, hinv⟩ := ht.exists_grant
  have hfree := (hA.deallocate hinv (Or.inl List.mem_cons_self)).inv
  obtain ⟨hg, hnodup⟩ := List.nodup_cons.mp hnodup
  have hnot : g ∉ {g' | g' ∈ G} ∪ K := fun hmem => hmem.elim hg hgK
  rw [List.setOfPred_mem_cons, Set.insert_union, Set.insert_sdiff_self_of_notMem hnot] at hfree
  exact ⟨G, hnodup, hts, hK, hfree⟩

/-- All the blocks are freed, one after the other. -/
theorem Tracked.deallocate_all (hA : HonoursCore A Inv) (ht : Tracked Inv K ts h) :
    Tracked Inv K [] (ts.foldl (fun h t => A.deallocate t.1 t.2 h) h) := by
  induction ts generalizing h with
  | nil => exact ht
  | cons t ts ih =>
      rw [List.foldl_cons]
      exact ih (ht.deallocate hA)

/-- The block behind a ticket is left where it is. -/
theorem Tracked.forget (ht : Tracked Inv K (t :: ts) h) :
    ∃ g : Grant w, g.ticket = t ∧ Tracked Inv (insert g K) ts h := by
  obtain ⟨g, hticket, -, G, hnodup, hts, hK, hinv⟩ := ht.exists_grant
  obtain ⟨hg, hnodup⟩ := List.nodup_cons.mp hnodup
  refine ⟨g, hticket, G, hnodup, hts, fun g' hg' => ?_, ?_⟩
  · rintro (rfl | hmem)
    · exact hg hg'
    · exact hK g' hg' hmem
  · rw [List.setOfPred_mem_cons, Set.insert_union] at hinv
    rw [Set.union_insert]
    exact hinv

/-- The owner of a block writes into it. -/
theorem Tracked.write (hA : HonoursCore A Inv) (ht : Tracked Inv K ts h) (hmem : t ∈ ts) {m : Mem}
    (hm : Set.EqOn m h.mem (Block.bytes ⟨t.1, t.2.size⟩)ᶜ) : Tracked Inv K ts ⟨h.alloc, m⟩ := by
  obtain ⟨G, hnodup, hts, hK, hinv⟩ := ht
  obtain ⟨g, hg, rfl⟩ := List.mem_map.mp (hts.mem_iff.mp hmem)
  have hlarge := (hA.satisfies hinv (Or.inl hg)).large
  have hsub : Block.bytes ⟨g.ticket.1, g.ticket.2.size⟩ ⊆ liveBytes ({g | g ∈ G} ∪ K) := by
    intro x hx
    refine ⟨g, Or.inl hg, ?_⟩
    rw [Block.mem_bytes] at hx ⊢
    simp only [Grant.ticket] at hx
    omega
  exact ⟨G, hnodup, hts, hK, hA.write hinv (hm.mono (Set.compl_subset_compl.mpr hsub))⟩

/-- The blocks that are held are aligned and apart. -/
theorem Tracked.satisfies (hA : HonoursCore A Inv) (ht : Tracked Inv K ts h) :
    (∀ t ∈ ts, Satisfies ⟨t.1, t.2.size⟩ t.2) ∧
      ts.Pairwise fun t t' =>
        Disjoint (Block.bytes ⟨t.1, t.2.size⟩) (Block.bytes ⟨t'.1, t'.2.size⟩) := by
  obtain ⟨G, hnodup, hts, hK, hinv⟩ := ht
  have hsat : ∀ g ∈ G, Satisfies g.block g.layout := fun g hg => hA.satisfies hinv (Or.inl hg)
  have hsub : ∀ g ∈ G, Block.bytes ⟨g.block.ptr, g.layout.size⟩ ⊆ g.block.bytes := by
    intro g hg x hx
    have hlarge := (hsat g hg).large
    rw [Block.mem_bytes] at hx ⊢
    simp only at hx
    omega
  constructor
  · intro t hmem
    obtain ⟨g, hg, rfl⟩ := List.mem_map.mp (hts.mem_iff.mp hmem)
    obtain ⟨haligned, hlarge, hnonnull, hspace⟩ := hsat g hg
    exact ⟨haligned, le_rfl, hnonnull, by simp only [Grant.ticket]; omega⟩
  · have hsymm : ∀ {t t' : Ticket w},
        Disjoint (Block.bytes ⟨t.1, t.2.size⟩) (Block.bytes ⟨t'.1, t'.2.size⟩) →
        Disjoint (Block.bytes ⟨t'.1, t'.2.size⟩) (Block.bytes ⟨t.1, t.2.size⟩) := fun h => h.symm
    rw [hts.pairwise_iff hsymm, List.pairwise_map]
    refine hnodup.imp_of_mem fun hg hg' hne => ?_
    exact (hA.disjoint hinv (Or.inl hg) (Or.inl hg') hne).mono (hsub _ hg) (hsub _ hg')

/-! ## The record of what is out -/

theorem recorded_logged (hA : HonoursCore A Inv) (old : List (Grant w)) :
    HonoursCore (recorded A) (Logged Inv old) where
  satisfies := fun hl hg => hA.satisfies hl.inv hg
  disjoint := fun hl hg hg' hne => hA.disjoint hl.inv hg hg' hne
  allocate_some := by
    intro h L l b h' hl heq
    obtain ⟨hr, rfl⟩ := note_eq_some heq
    exact issued_note hA (hA.allocate_some hl.inv (Prod.ext hr rfl)) hl.accounts
  allocate_none := by
    intro h L l h' hl heq
    obtain ⟨hr, rfl⟩ := note_eq_none heq
    exact logged_unchanged hl (hA.allocate_none hl.inv (Prod.ext hr rfl))
  deallocate := by
    intro h L g hl hg
    have hun := hA.deallocate hl.inv hg
    exact ⟨⟨hun.inv, hl.accounts_erase hg⟩, hun.frame⟩
  write := fun hl hm => ⟨hA.write hl.inv hm, hl.accounts⟩

/-- A recorded allocator works where it did. -/
theorem WorksIn.recorded {Z : Set Nat} (hA : WorksIn A Z Inv) (old : List (Grant w)) :
    WorksIn (ForgeAlloc.recorded A) Z (Logged Inv old) where
  toHonoursCore := recorded_logged hA.toHonoursCore old
  subset := fun hl hg => hA.subset hl.inv hg
  allocate_frame := by
    intro h L l hl
    have hframe := hA.allocate_frame (l := l) hl.inv
    rw [← note_alloc [] (A.allocate l (Recorded.heap h))] at hframe
    exact hframe
  deallocate_frame := fun hl hg => hA.deallocate_frame hl.inv hg
  mem_congr := fun hl hm => ⟨hA.mem_congr hl.inv hm, hl.accounts⟩

/-- A record that has just begun. -/
theorem logged_empty {s : σ} {m : Mem} (hinv : Inv ⟨s, m⟩ ∅) :
    Logged Inv [] ⟨⟨s, [], []⟩, m⟩ ∅ := by
  have hset : {g | g ∈ ([] : List (Grant w))} = ∅ :=
    Set.eq_empty_of_forall_notMem fun _ => List.not_mem_nil
  rw [← hset] at hinv ⊢
  exact logged_init hinv List.nodup_nil

/-- What a program holds is what its allocator has issued and not received. -/
theorem Tracked.accounts {h : Heap (Recorded w σ)} (ht : Tracked (Logged Inv []) ∅ ts h) :
    h.alloc.issued.Perm (h.alloc.received ++ ts) := by
  obtain ⟨G, hnodup, hts, -, hl⟩ := ht
  obtain ⟨out, hnodup', hmem, hperm⟩ := hl.accounts
  have hout : out.Perm G := by
    rw [List.perm_ext_iff_of_nodup hnodup' hnodup]
    intro g
    rw [← hmem, Set.union_empty, Set.mem_ofPred_eq]
  rw [List.map_nil, List.nil_append, List.nil_append] at hperm
  exact hperm.trans (((hout.map Grant.ticket).trans hts.symm).append_left _)

end ForgeAlloc
