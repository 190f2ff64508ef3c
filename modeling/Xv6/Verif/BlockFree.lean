import Xv6.Verif.BlockAlloc

/-!
# Truncation, the inode cache, and runs

`itrunc` removes the references of an inode one by one, each with the mark of its block; `iput`
gives an inode up, to the disk or altogether. With the other operations on the inode cache this
makes the invariant one of every run.
-/

namespace Xv6

open Lib Function

variable {s t : Fs} {v v' : Volume}

/-! ## `itrunc` -/

namespace Volume

variable {sb : Superblock} {inum b : Nat}

/-- The volume without a direct block of an inode. -/
def dropDirect (v : Volume) (inum : Nat) (k : Fin nDirect) (b : Nat) : Volume where
  mark := update v.mark b false
  data := v.data
  node := update v.node inum ((v.node inum).setAddr k.castSucc 0)

/-- The reference to a direct block goes. -/
theorem refers_dropDirect (typed : (v.node inum).type ≠ 0) (k : Fin nDirect) (b : Nat)
    (r : Nat × Place) (c : Nat) :
    (v.dropDirect inum k b).Refers sb r c ↔ v.Refers sb r c ∧ r ≠ (inum, .direct k) := by
  obtain ⟨i, place⟩ := r
  by_cases here : i = inum
  · subst here
    have node : (v.dropDirect i k b).node i = (v.node i).setAddr k.castSucc 0 :=
      update_self ..
    have block := (v.node i).blockAt_dropDirect v.data k place
    show i < sb.ninodes ∧ ((v.dropDirect i k b).node i).type ≠ 0 ∧ c ≠ 0 ∧
      ((v.dropDirect i k b).node i).blockAt v.data place = c ↔ _
    rw [node, block]
    by_cases there : place = .direct k
    · rw [if_pos there]
      constructor
      · rintro ⟨-, -, nonzero, none⟩
        exact absurd none.symm nonzero
      · rintro ⟨-, apart⟩
        exact absurd (by rw [there]) apart
    · rw [if_neg there]
      have apart : (i, place) ≠ (i, Place.direct k) := fun same => there (congrArg Prod.snd same)
      simp only [apart, ne_eq, not_false_iff, and_true]
      rfl
  · have node : (v.dropDirect inum k b).node i = v.node i := update_of_ne here _ _
    have apart : (i, place) ≠ (inum, Place.direct k) := fun same => here (congrArg Prod.fst same)
    rw [refers_congr node fun _ _ _ => rfl]
    simp [apart]

/-- A reference that an indirect block leads to, or the block itself. -/
def Beyond (inum : Nat) (r : Nat × Place) : Prop := r.1 = inum ∧ ∀ k, r.2 ≠ .direct k

/-- The volume without the indirect block of an inode. -/
def dropIndirect (v : Volume) (inum : Nat) (b : Nat) : Volume where
  mark := update v.mark b false
  data := v.data
  node := update v.node inum ((v.node inum).setAddr (Fin.last nDirect) 0)

/-- The references to the indirect block and its entries go. -/
theorem refers_dropIndirect (b : Nat) (r : Nat × Place) (c : Nat) :
    (v.dropIndirect inum b).Refers sb r c ↔ v.Refers sb r c ∧ ¬Beyond inum r := by
  obtain ⟨i, place⟩ := r
  by_cases here : i = inum
  · subst here
    have node : (v.dropIndirect i b).node i = (v.node i).setAddr (Fin.last nDirect) 0 :=
      update_self ..
    have block := (v.node i).blockAt_dropIndirect v.data place
    show i < sb.ninodes ∧ ((v.dropIndirect i b).node i).type ≠ 0 ∧ c ≠ 0 ∧
      ((v.dropIndirect i b).node i).blockAt v.data place = c ↔ _
    rw [node, block]
    cases place with
    | direct k =>
      have kept : ¬Beyond i (i, .direct k) := fun beyond => beyond.2 k rfl
      simp only [kept, not_false_iff, and_true]
      rfl
    | indirect =>
      have gone : Beyond i (i, .indirect) := ⟨rfl, by simp⟩
      simp only [gone, not_true, and_false, iff_false]
      rintro ⟨-, -, nonzero, none⟩
      exact nonzero none.symm
    | entry j =>
      have gone : Beyond i (i, .entry j) := ⟨rfl, by simp⟩
      simp only [gone, not_true, and_false, iff_false]
      rintro ⟨-, -, nonzero, none⟩
      exact nonzero none.symm
  · have node : (v.dropIndirect inum b).node i = v.node i := update_of_ne here _ _
    have kept : ¬Beyond inum (i, place) := fun beyond => here beyond.1
    rw [refers_congr node fun _ _ _ => rfl]
    simp [kept]

end Volume

/-- An inode loses blocks, and nothing else changes. -/
structure Shrinks (sb : Superblock) (inum : Nat) (v v' : Volume) : Prop where
  others : ∀ i, i ≠ inum → v'.node i = v.node i
  node : { v'.node inum with addrs := (v.node inum).addrs } = v.node inum
  keeps : ∀ r b, r.1 ≠ inum → v.Refers sb r b → v'.Refers sb r b

variable {sb : Superblock} {inum : Nat} {ip : Fin nInode}

/-- Two losses in a row. -/
theorem Shrinks.trans {v v' v'' : Volume} (first : Shrinks sb inum v v')
    (second : Shrinks sb inum v' v'') : Shrinks sb inum v v'' := by
  refine ⟨fun i apart => (second.others i apart).trans (first.others i apart), ?_,
    fun r b apart refers => second.keeps r b apart (first.keeps r b apart refers)⟩
  rw [← first.node, ← second.node]

/-- What a part of `itrunc` leaves. -/
structure Trimmed (ip : Fin nInode) (inum : Nat) (s : Fs) (v : Volume) (t : Fs) (v' : Volume) :
    Prop where
  sound : Sound t v'
  touches : Touches ip s.toStore t.toStore
  shrinks : Shrinks s.sb inum v v'

/-- One function after another. -/
theorem Trimmed.trans {u : Fs} {v'' : Volume} (first : Trimmed ip inum s v t v')
    (second : Trimmed ip inum t v' u v'') : Trimmed ip inum s v u v'' :=
  ⟨second.sound, first.touches.trans second.touches,
    first.shrinks.trans (first.touches.sb ▸ second.shrinks)⟩

/-- Nothing is freed. -/
theorem Trimmed.refl (sound : Sound s v) (ip : Fin nInode) (inum : Nat) : Trimmed ip inum s v s v :=
  ⟨sound, (⟨rfl, fun _ _ => rfl⟩ : Untouched _ _).touches rfl ip,
    fun _ _ => rfl, rfl, fun _ _ _ refers => refers⟩

/-- Freeing a marked block changes its mark. -/
theorem bfree_shows (shows : Shows s.toStore v) {b : Nat} (marked : v.Marked s.sb b) :
    Wp noDoubleFree (bfree b)
      (fun _ t => Shows t.toStore { v with mark := update v.mark b false } ∧
        t.icache = s.icache ∧ Untouched s.toStore t.toStore ∧ t.ballocs = s.ballocs) s := by
  apply Wp.mono (bfree_spec shows marked)
  rintro _ _ rfl
  exact ⟨shows.setMark marked.1 false, rfl, shows.untouched_setMark b false, rfl⟩

/-- An entry holds its inode while the cache stays. -/
theorem holds_congr {s t : Store} (holds : s.Holds inum ip) (icache : t.icache = s.icache) :
    t.Holds inum ip := by
  unfold Store.Holds
  rw [icache]
  exact holds

/-- The first loop of `itrunc` frees the direct blocks. -/
theorem itruncDirect_spec (ks : List (Fin nDirect)) (sound : Sound s v) (holds : s.Holds inum ip) :
    Wp noDoubleFree (itruncDirect ip ks)
      (fun _ t => ∃ v', Trimmed ip inum s v t v' ∧
        (∀ k ∈ ks, (v'.node inum).addrs k.castSucc = 0) ∧
        ∀ i, (v.node inum).addrs i = 0 → (v'.node inum).addrs i = 0) s := by
  induction ks generalizing s v with
  | nil => exact Wp.pure ⟨v, .refl sound ip inum, by simp, fun _ zero => zero⟩
  | cons k rest ih =>
    have shows := sound.shows
    obtain ⟨numbered, typed⟩ := shows.held holds
    have copy := shows.copy_eq holds
    unfold itruncDirect getAddr
    apply Wp.get
    apply Wp.ite
    · intro nonzero
      rw [copy] at nonzero ⊢
      have refers : v.Refers s.sb (inum, .direct k) ((v.node inum).addrs k.castSucc).toNat :=
        ⟨numbered, typed, nonzero, rfl⟩
      generalize ((v.node inum).addrs k.castSucc).toNat = b at refers nonzero ⊢
      apply Wp.bind (bfree_shows shows (sound.accounted.marked_of_refs refers))
      rintro _ s₁ ⟨shows₁, icache₁, untouched₁, ballocs₁⟩
      have holds₁ : s₁.Holds inum ip := holds_congr holds icache₁
      have copy₁ := shows₁.copy_eq holds₁
      obtain ⟨shows₂, touches₂⟩ := shows₁.setCopy holds₁
        (d := (v.node inum).setAddr k.castSucc 0) typed
      apply Wp.bind setAddr_spec
      rintro _ _ rfl
      rw [copy₁]
      have accounted : (v.dropDirect inum k b).Accounted s.sb :=
        sound.accounted.remove refers (fun c refers' => refers.unique refers')
          (Volume.marked_clear rfl) (Volume.refers_dropDirect typed k b)
      have first : Trimmed ip inum s v
          { s₁ with
            toStore := s₁.toStore.setEntry ip
              { s₁.icache ip with copy := (v.node inum).setAddr k.castSucc 0 } }
          (v.dropDirect inum k b) := by
        refine ⟨⟨shows₂, ?_, ?_⟩, (untouched₁.touches icache₁ ip).trans touches₂, ?_, ?_, ?_⟩
        · show (v.dropDirect inum k b).Accounted s₁.sb
          rw [untouched₁.sb]
          exact accounted
        · show ∀ call ∈ s₁.ballocs, call.Fresh
          rw [ballocs₁]
          exact sound.fresh
        · exact fun i apart => update_of_ne apart _ _
        · show { update v.node inum ((v.node inum).setAddr k.castSucc 0) inum with
            addrs := (v.node inum).addrs } = v.node inum
          rw [update_self]
          rfl
        · exact fun r c apart refers' => (Volume.refers_dropDirect typed k b r c).mpr
            ⟨refers', fun same => apart (congrArg Prod.fst same)⟩
      have node : ((v.dropDirect inum k b).node inum).addrs =
          update (v.node inum).addrs k.castSucc 0 := by
        show (update v.node inum ((v.node inum).setAddr k.castSucc 0) inum).addrs = _
        rw [update_self]
        rfl
      apply Wp.mono (ih first.sound (first.touches.holds.mpr holds))
      rintro _ t ⟨v', later, zero, keeps⟩
      refine ⟨v', first.trans later, fun l member => ?_, fun i none => keeps i ?_⟩
      · rcases List.mem_cons.mp member with rfl | inRest
        · apply keeps
          rw [node, update_self]
        · exact zero l inRest
      · rw [node, update_apply, none, ite_self]
    · intro none
      rw [copy] at none
      apply Wp.mono (ih sound holds)
      rintro _ t ⟨v', later, zero, keeps⟩
      refine ⟨v', later, fun l member => ?_, keeps⟩
      rcases List.mem_cons.mp member with rfl | inRest
      · exact keeps _ (UInt32.toNat_inj.mp (not_not.mp none))
      · exact zero l inRest

/-- A ledger without the references of a set, which have lost their marks. -/
abbrev Volume.AccountedBut (v : Volume) (sb : Superblock) (gone : Nat × Place → Prop) : Prop :=
  Ledger (v.Marked sb) (· < sb.dataStart) fun r b => v.Refers sb r b ∧ ¬gone r

/-- The second loop of `itrunc` frees the blocks of the indirect block, which still lists them. -/
theorem itruncIndirect_spec (js : List (Fin nIndirect)) (once : js.Nodup)
    {gone : Nat × Place → Prop} (shows : Shows s.toStore v) (ledger : v.AccountedBut s.sb gone)
    (present : ∀ j ∈ js, ¬gone (inum, .entry j)) (numbered : inum < s.sb.ninodes)
    (typed : (v.node inum).type ≠ 0) (nonzero : (v.node inum).indirect ≠ 0) :
    Wp noDoubleFree (itruncIndirect (v.data (v.node inum).indirect) js)
      (fun _ t => ∃ mark, Shows t.toStore { v with mark := mark } ∧
        Volume.AccountedBut { v with mark := mark } s.sb
          (fun r => gone r ∨ ∃ j ∈ js, r = (inum, .entry j)) ∧
        t.icache = s.icache ∧ Untouched s.toStore t.toStore ∧ t.ballocs = s.ballocs) s := by
  induction js generalizing s v gone with
  | nil =>
    refine Wp.pure ⟨v.mark, shows, ?_, rfl, ⟨rfl, fun _ _ => rfl⟩, rfl⟩
    exact ledger.congr (fun _ => Iff.rfl) fun r b => by simp
  | cons j rest ih =>
    obtain ⟨fresh, once'⟩ := List.nodup_cons.mp once
    unfold itruncIndirect
    apply Wp.ite
    · intro listed
      have refers : v.Refers s.sb (inum, .entry j)
          ((v.data (v.node inum).indirect).word (4 * j)).toNat := by
        refine ⟨numbered, typed, listed, ?_⟩
        rw [Dinode.blockAt_entry, if_neg nonzero]
      have here := present j (List.mem_cons_self ..)
      generalize ((v.data (v.node inum).indirect).word (4 * j)).toNat = b at refers listed ⊢
      apply Wp.bind (bfree_shows shows (ledger.marked_of_refs ⟨refers, here⟩))
      rintro _ s₁ ⟨shows₁, icache₁, untouched₁, ballocs₁⟩
      have ledger₁ : Volume.AccountedBut { v with mark := update v.mark b false } s₁.sb
          fun r => gone r ∨ r = (inum, .entry j) := by
        rw [untouched₁.sb]
        refine ledger.remove ⟨refers, here⟩ (fun c refers' => refers.unique refers'.1)
          (Volume.marked_clear rfl) fun r c => ?_
        rw [not_or, ← and_assoc]
        rfl
      have present₁ (k : Fin nIndirect) (member : k ∈ rest) :
          ¬(gone (inum, .entry k) ∨ ((inum, Place.entry k) : Nat × Place) = (inum, .entry j)) := by
        rintro (out | same)
        · exact present k (List.mem_cons_of_mem _ member) out
        · cases same
          exact fresh member
      apply Wp.mono (ih once' shows₁ ledger₁ present₁ (untouched₁.sb ▸ numbered) typed nonzero)
      rintro _ t ⟨mark, shows', ledger', icache', untouched', ballocs'⟩
      refine ⟨mark, shows', ?_, icache'.trans icache₁, untouched₁.trans untouched',
        ballocs'.trans ballocs₁⟩
      rw [untouched₁.sb] at ledger'
      refine ledger'.congr (fun _ => Iff.rfl) fun r c => ?_
      simp only [List.mem_cons, exists_eq_or_imp, or_assoc]
    · intro none
      have absent (c : Nat) : ¬v.Refers s.sb (inum, .entry j) c := by
        rintro ⟨-, -, listed, block⟩
        rw [Dinode.blockAt_entry, if_neg nonzero, not_not.mp none] at block
        exact listed block.symm
      apply Wp.mono (ih once' shows ledger (fun k member => present k (.tail _ member)) numbered
        typed nonzero)
      rintro _ t ⟨mark, shows', ledger', icache', untouched', ballocs'⟩
      refine ⟨mark, shows', ?_, icache', untouched', ballocs'⟩
      refine ledger'.congr (fun _ => Iff.rfl) fun r c => ?_
      simp only [List.mem_cons, exists_eq_or_imp]
      constructor
      · rintro ⟨refers, kept⟩
        exact ⟨refers, fun out => kept (out.imp_right .inr)⟩
      · rintro ⟨refers, kept⟩
        refine ⟨refers, ?_⟩
        rintro (out | rfl | out)
        · exact kept (.inl out)
        · exact absent c refers
        · exact kept (.inr out)

/-- What the entries of an indirect block and the block itself are. -/
theorem Volume.beyond_iff (r : Nat × Place) :
    Beyond inum r ↔ (∃ j ∈ List.finRange nIndirect, r = (inum, .entry j)) ∨
      r = (inum, .indirect) := by
  obtain ⟨i, place⟩ := r
  unfold Beyond
  cases place <;> simp

/-- The indirect block is freed with the blocks it lists. -/
theorem itruncBlock_spec (sound : Sound s v) {indirect : Nat} (holds : s.Holds inum ip)
    (block : (v.node inum).indirect = indirect) (nonzero : indirect ≠ 0) {rest : FsM Unit}
    {post : Unit → Fs → Prop} (after : ∀ t v', Trimmed ip inum s v t v' →
      (v'.node inum).addrs = update (v.node inum).addrs (Fin.last nDirect) 0 →
      Wp noDoubleFree rest post t) :
    Wp noDoubleFree
      (do
        let bp ← bread indirect
        itruncIndirect bp (List.finRange nIndirect)
        bfree indirect
        setAddr ip (Fin.last nDirect) 0
        rest) post s := by
  have shows := sound.shows
  obtain ⟨numbered, typed⟩ := shows.held holds
  subst block
  have owned : v.Refers s.sb (inum, .indirect) (v.node inum).indirect :=
    ⟨numbered, typed, nonzero, rfl⟩
  obtain ⟨start, inside⟩ := sound.accounted.data owned
  have ledger : v.AccountedBut s.sb fun _ => False :=
    sound.accounted.congr (fun _ => Iff.rfl) fun _ _ => by simp
  apply bread_spec
  rw [shows.data _ start inside]
  apply Wp.bind (itruncIndirect_spec (List.finRange nIndirect) (List.nodup_finRange _) shows ledger
    (fun _ _ out => out) numbered typed nonzero)
  rintro _ s₁ ⟨mark, shows₁, ledger₁, icache₁, untouched₁, ballocs₁⟩
  have kept : ¬(False ∨ ∃ j ∈ List.finRange nIndirect,
      ((inum, .indirect) : Nat × Place) = (inum, .entry j)) := by simp
  have marked : Volume.Marked { v with mark := mark } s₁.sb (v.node inum).indirect := by
    rw [untouched₁.sb]
    exact ledger₁.marked_of_refs ⟨owned, kept⟩
  apply Wp.bind (bfree_shows shows₁ marked)
  rintro _ s₂ ⟨shows₂, icache₂, untouched₂, ballocs₂⟩
  have untouched := untouched₁.trans untouched₂
  have icache := icache₂.trans icache₁
  have holds₂ : s₂.Holds inum ip := holds_congr holds icache
  have copy₂ := shows₂.copy_eq holds₂
  obtain ⟨shows₃, touches₃⟩ := shows₂.setCopy holds₂
    (d := (v.node inum).setAddr (Fin.last nDirect) 0) typed
  apply Wp.bind setAddr_spec
  rintro _ _ rfl
  rw [copy₂]
  have refers (r : Nat × Place) (c : Nat) :
      (Volume.dropIndirect { v with mark := mark } inum (v.node inum).indirect).Refers s.sb r c ↔
        Volume.Refers { v with mark := mark } s.sb r c ∧ ¬Volume.Beyond inum r :=
    Volume.refers_dropIndirect (v.node inum).indirect r c
  apply after _ (Volume.dropIndirect { v with mark := mark } inum (v.node inum).indirect)
  · refine ⟨⟨shows₃, ?_, ?_⟩, (untouched.touches icache ip).trans touches₃, ?_, ?_, ?_⟩
    · show Volume.Accounted _ s₂.sb
      rw [untouched.sb]
      refine ledger₁.remove ⟨owned, kept⟩ (fun c refers' => owned.unique refers'.1)
        (Volume.marked_clear rfl) fun r c => ?_
      rw [refers, Volume.beyond_iff, not_or]
      simp only [false_or, ne_eq, and_assoc]
    · show ∀ call ∈ s₂.ballocs, call.Fresh
      rw [ballocs₂, ballocs₁]
      exact sound.fresh
    · exact fun i apart => update_of_ne apart _ _
    · show { update v.node inum ((v.node inum).setAddr (Fin.last nDirect) 0) inum with
        addrs := (v.node inum).addrs } = v.node inum
      rw [update_self]
      rfl
    · exact fun r c apart refers' => (refers r c).mpr ⟨refers', fun beyond => apart beyond.1⟩
  · show (update v.node inum ((v.node inum).setAddr (Fin.last nDirect) 0) inum).addrs = _
    rw [update_self]
    rfl

/-- What `itrunc` leaves. -/
structure Truncated (ip : Fin nInode) (inum : Nat) (s : Fs) (v : Volume) (t : Fs) (v' : Volume) :
    Prop where
  good : Good t v'
  node : v'.node inum = { v.node inum with size := 0, addrs := fun _ => 0 }
  sb : t.sb = s.sb
  holds : t.Holds inum ip
  ref : (t.icache ip).ref = (s.icache ip).ref
  clean : t.Clean ip
  entries : ∀ jp, jp ≠ ip → t.icache jp = s.icache jp
  dinode : ∀ i, i < s.sb.ninodes → i ≠ inum → t.dinode i = s.dinode i

/-- The other entries agree with the disk as before. -/
theorem Truncated.others (truncated : Truncated ip inum s v t v') (good : Good s v)
    (holds : s.Holds inum ip) {part : Dinode → Dinode} {jp : Fin nInode} (apart : jp ≠ ip)
    (agrees : s.Agrees part jp) : t.Agrees part jp := by
  refine agrees.congr (truncated.entries jp apart) fun i holds' => ?_
  refine truncated.dinode i (good.shows.held holds').1 ?_
  rintro rfl
  exact apart (good.shows.unique jp ip holds'.1 holds.1 (holds'.2.2.trans holds.2.2.symm))

/-- The other entries agree with the disk as before. -/
theorem Touches.agrees {s t : Store} {part : Dinode → Dinode} (touches : Touches ip s t)
    (shows : Shows s v) {jp : Fin nInode} (apart : jp ≠ ip) (agrees : s.Agrees part jp) :
    t.Agrees part jp :=
  agrees.congr (touches.others jp apart)
    fun inum holds => touches.dinode inum (shows.held holds).1

/-- The volume with the last blocks of an inode gone. -/
theorem Shrinks.empty {d : Dinode} (shrinks : Shrinks sb inum v v') (accounted : v'.Accounted sb)
    (full : v.Full sb) (typed : (v'.node inum).type ≠ 0) (typed' : d.type ≠ 0)
    (addrs : d.addrs = (v'.node inum).addrs) (size : d.size = 0) :
    (v'.setNode inum d).Accounted sb ∧ (v'.setNode inum d).Full sb := by
  have refers (r : Nat × Place) (b : Nat) :
      (v'.setNode inum d).Refers sb r b ↔ v'.Refers sb r b :=
    Volume.refers_setNode typed typed' addrs r b
  refine ⟨accounted.congr (fun _ => Iff.rfl) refers, fun i numbered allocated k below => ?_⟩
  by_cases here : i = inum
  · have node : (v'.setNode inum d).node i = d := here ▸ update_self ..
    rw [node, size] at below
    exact absurd below (Nat.not_lt_zero _)
  · have node : (v'.setNode inum d).node i = v.node i :=
      (update_of_ne here _ _).trans (shrinks.others i here)
    rw [node] at allocated below
    obtain ⟨place, isPlace, b, old⟩ := full i numbered allocated k below
    exact ⟨place, isPlace, b, (refers _ _).mpr (shrinks.keeps _ b here old)⟩

/-- The end of `itrunc`, which stores an inode without blocks. -/
theorem itruncEnd_spec (good : Good s v) (holds : s.Holds inum ip)
    (trimmed : Trimmed ip inum s v t v') (empty : ∀ i, (v'.node inum).addrs i = 0) :
    Wp noDoubleFree
      (do
        setCopy ip fun d => { d with size := 0 }
        iupdate ip)
      (fun _ u => ∃ v'', Truncated ip inum s v u v'') t := by
  have touches := trimmed.touches
  have holds' := touches.holds.mpr holds
  have shows := trimmed.sound.shows
  obtain ⟨-, typed⟩ := shows.held holds'
  have saved := shows.save holds' (d := { v'.node inum with size := 0 }) typed
  have account := trimmed.shrinks.empty (d := { v'.node inum with size := 0 })
    (touches.sb ▸ trimmed.sound.accounted) good.full typed typed rfl rfl
  apply Wp.mono save_run
  rintro _ _ rfl
  rw [shows.copy_eq holds']
  refine ⟨v'.setNode inum { v'.node inum with size := 0 }, ⟨⟨saved.shows, ?_, ?_⟩, ?_⟩, ?_, ?_,
    saved.holds, ?_, saved.clean, ?_, ?_⟩
  · show Volume.Accounted _ t.sb
    rw [touches.sb]
    exact account.1
  · exact trimmed.sound.fresh
  · show Volume.Full _ t.sb
    rw [touches.sb]
    exact account.2
  · show update v'.node inum { v'.node inum with size := 0 } inum = _
    rw [update_self, ← trimmed.shrinks.node, ← funext empty]
  · exact touches.sb
  · show (update t.icache ip _ ip).ref = _
    rw [update_self]
    exact touches.ref
  · intro jp apart
    show update t.icache ip _ jp = _
    rw [update_of_ne apart]
    exact touches.others jp apart
  · intro i below apart
    rw [← touches.dinode i below, Store.save, Store.dinode_setDinode, if_neg]
    · rfl
    · rwa [holds'.2.2]

/-- `itrunc` frees the blocks of an inode. -/
theorem itrunc_spec (good : Good s v) (holds : s.Holds inum ip) :
    Wp noDoubleFree (itrunc ip) (fun _ t => ∃ v', Truncated ip inum s v t v') s := by
  unfold itrunc
  apply Wp.bind (itruncDirect_spec (List.finRange nDirect) good.toSound holds)
  rintro _ s₁ ⟨v₁, trimmed, direct, -⟩
  have holds₁ := trimmed.touches.holds.mpr holds
  have direct' (k : Fin nDirect) := direct k (List.mem_finRange k)
  unfold getAddr
  apply Wp.get
  rw [trimmed.sound.shows.copy_eq holds₁]
  apply Wp.ite
  · intro nonzero
    apply itruncBlock_spec trimmed.sound holds₁ rfl nonzero
    intro s₂ v₂ trimmed₂ addrs
    apply itruncEnd_spec good holds (trimmed.trans trimmed₂)
    intro i
    rw [addrs]
    cases i using Fin.lastCases with
    | last => exact update_self ..
    | cast k =>
      rw [update_of_ne (Fin.castSucc_ne_last k)]
      exact direct' k
  · intro zero
    apply itruncEnd_spec good holds trimmed
    intro i
    cases i using Fin.lastCases with
    | last => exact UInt32.toNat_inj.mp (not_not.mp zero)
    | cast k => exact direct' k

end Xv6
