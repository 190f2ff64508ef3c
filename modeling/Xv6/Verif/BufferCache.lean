import Xv6.Lib.Tally
import Xv6.Kernel.Bio

/-!
# Coherence of the buffer cache

The invariant of every run: the pointers form one ring of all buffers, no two buffers are for one
block, a buffer in use stays with its block, its lock is held by at most one client, and what a
valid buffer holds is what was last stored to its block. Where no buffer has something newer, the
disk has it.
-/

namespace Xv6

open Lib Function

/-- The ring after `binit` holds the buffers of the array, last one first. -/
theorem binit_ring : binit.Ring (List.finRange nBuf).reverse := by
  have grow (links : Links (Fin nBuf)) (order more : List (Fin nBuf)) (ring : links.Ring order)
      (once : more.Nodup) (fresh : ∀ i ∈ more, i ∉ order) :
      (more.foldl Links.pushFront links).Ring (more.reverse ++ order) := by
    induction more generalizing links order with
    | nil => exact ring
    | cons i more ih =>
      rw [List.foldl_cons, List.reverse_cons, List.append_assoc]
      have once := List.nodup_cons.mp once
      apply ih
      · exact ring.pushFront (fresh i (.head _))
      · exact once.2
      · intro j member
        have apart : j ≠ i := fun same => once.1 (same ▸ member)
        simp [apart, fresh j (.tail _ member)]
  have ring := grow { next := fun _ => none, prev := fun _ => none } [] (List.finRange nBuf)
    ⟨List.nodup_nil, rfl, rfl, trivial⟩ (List.nodup_finRange nBuf) (by simp)
  rwa [List.append_nil] at ring

/-- A client has the lock of a buffer. -/
def Session.Has (i : Fin nBuf) : Session → Prop
  | .locked r | .holding r _ => r.buf = i
  | _ => False

/-- A client has changed a buffer and not yet called `bwrite` or `log_write`. -/
def Session.Unsaved (i : Fin nBuf) : Session → Prop
  | .holding r false => r.buf = i
  | _ => False

instance (i : Fin nBuf) : DecidablePred (Session.Unsaved i) := fun session =>
  match session with
  | .holding r false => inferInstanceAs (Decidable (r.buf = i))
  | .idle | .waiting _ | .locked _ | .holding _ true | .releasing _ => .isFalse id

variable {i : Fin nBuf} {session : Session}

/-- Who has a buffer's lock uses the buffer. -/
theorem Session.Has.uses (has : session.Has i) : session.buf = some i := by
  cases session with
  | idle | waiting | releasing => exact has.elim
  | locked r => exact congrArg some has
  | holding r saved => exact congrArg some has

/-- Who has changed a buffer has its lock. -/
theorem Session.Unsaved.has (unsaved : session.Unsaved i) : session.Has i := by
  cases session with
  | idle | waiting | releasing | locked => exact unsaved.elim
  | holding r saved =>
    cases saved with
    | true => exact unsaved.elim
    | false => exact unsaved

/-- The client that makes a step. -/
@[simp] def CacheEvent.client {Client : Type} : CacheEvent Client → Client
  | .get c _ _ | .lock c | .read c _ _ _ | .store c _ _ _ | .bwrite c | .logWrite c | .release c
  | .drop c => c

namespace CacheState

variable {Client : Type} [DecidableEq Client] {driver : Driver} {s t : CacheState Client}
  {disk : UInt32 × UInt32 → Block} {past past' : List (CacheEvent Client)}

omit [DecidableEq Client] in
/-- `brelse` lowers one count and may move the buffer in the ring. -/
theorem brelse_eq (i : Fin nBuf) : s.brelse i =
    { s with
      links := if (s.buf i).refcnt - 1 = 0 then (s.links.unlink i).pushFront i else s.links
      buf := update s.buf i { s.buf i with refcnt := (s.buf i).refcnt - 1 } } := by
  simp only [brelse, setBuf, update_self]
  split <;> rfl

/-- The buffer cache is coherent with what the clients have stored. -/
structure Coherent [Fintype Client] (disk : UInt32 × UInt32 → Block)
    (past : List (CacheEvent Client)) (s : CacheState Client) : Prop where
  ring : ∃ order, s.links.Ring order ∧ ∀ i, i ∈ order
  counted : ∀ i, (s.buf i).refcnt = tally (fun session => session.buf = some i) s.session
  /-- A buffer in use is for the block its clients asked for. -/
  matched : ∀ c r, (s.session c).request = some r → (s.buf r.buf).key = r.key ∧ r.key.1 ≠ 0
  locked : ∀ c i, (s.session c).Has i → (s.buf i).locked = true
  alone : ∀ c d i, (s.session c).Has i → (s.session d).Has i → c = d
  unique : ∀ i j, (s.buf i).dev ≠ 0 → (s.buf i).key = (s.buf j).key → i = j
  named : ∀ i, (s.buf i).valid = true → (s.buf i).dev ≠ 0
  filled : ∀ i, (s.buf i).dirty = true → (s.buf i).valid = true
  returned : ∀ c r saved, s.session c = .holding r saved → (s.buf r.buf).valid = true
  fresh : ∀ i, (s.buf i).valid = true → (s.buf i).data = latest disk past (s.buf i).key
  /-- Where no buffer has something newer, the disk has what was last stored. -/
  backed : ∀ key, (∀ i, (s.buf i).key = key → (s.buf i).dirty = false ∧
    ∀ c, ¬(s.session c).Unsaved i) → s.disk key = latest disk past key

namespace Coherent

variable [Fintype Client]

omit [DecidableEq Client] in
/-- A buffer for a block of device 0 is neither dirty nor changed. -/
theorem void (inv : Coherent disk past s) (i : Fin nBuf) (unreal : (s.buf i).dev = 0) :
    (s.buf i).dirty = false ∧ ∀ c, ¬(s.session c).Unsaved i := by
  constructor
  · by_contra marked
    exact inv.named i (inv.filled i (by simpa using marked)) unreal
  · intro c unsaved
    obtain ⟨r, uses, rfl⟩ := Option.map_eq_some_iff.mp unsaved.has.uses
    obtain ⟨same, named⟩ := inv.matched c r uses
    rw [← same] at named
    exact named unreal

variable {i : Fin nBuf}

omit [DecidableEq Client] in
/-- A buffer that is neither dirty nor changed has nothing newer than the disk. -/
theorem clean_disk (inv : Coherent disk past s) (clean : (s.buf i).dirty = false)
    (saved : ∀ d, ¬(s.session d).Unsaved i) :
    s.disk (s.buf i).key = latest disk past (s.buf i).key := by
  apply inv.backed
  intro j carries
  by_cases real : (s.buf j).dev = 0
  · exact inv.void j real
  · obtain rfl := inv.unique j i real carries
    exact ⟨clean, saved⟩

omit [DecidableEq Client] in
/-- Nobody uses a buffer whose count is 0. -/
theorem unused (inv : Coherent disk past s) (zero : (s.buf i).refcnt = 0) (d : Client) :
    (s.session d).buf ≠ some i := by
  rw [inv.counted i] at zero
  exact tally_eq_zero (fun session : Session => session.buf = some i) zero d

/-- A client acts on a buffer, and no other client or buffer changes. The lock and the contents of
the buffer stay in order, and the disk changes at most at its block. -/
structure Touch (disk : UInt32 × UInt32 → Block) (past past' : List (CacheEvent Client))
    (s t : CacheState Client) (c : Client) (i : Fin nBuf) (b : Buf) (session : Session) : Prop where
  buf : t.buf = update s.buf i b
  moves : t.session = update s.session c session
  ring : ∃ order, t.links.Ring order ∧ ∀ j, j ∈ order
  uses : ∀ j, j ≠ i → (s.session c).buf ≠ some j ∧ session.buf ≠ some j
  counted : b.refcnt + (if (s.session c).buf = some i then 1 else 0) =
    (s.buf i).refcnt + if session.buf = some i then 1 else 0
  /-- A buffer goes to another block only if nobody uses it, it is not dirty, and no buffer is for
  that block. -/
  key : b.key = (s.buf i).key ∨
    (s.buf i).refcnt = 0 ∧ (s.buf i).dirty = false ∧ ∀ j, (s.buf j).key ≠ b.key
  matched : ∀ r, session.request = some r → b.key = r.key ∧ r.key.1 ≠ 0
  lock : session.Has i → b.locked = true ∧ ∀ d, d ≠ c → ¬(s.session d).Has i
  other : ∀ d, d ≠ c → (s.session d).Has i →
    b.locked = true ∧ ((s.buf i).valid = true → b.valid = true)
  named : b.valid = true → b.dev ≠ 0
  filled : b.dirty = true → b.valid = true
  returned : ∀ r saved, session = .holding r saved → b.valid = true
  fresh : b.valid = true → b.data = latest disk past' b.key
  elsewhere : ∀ key, key ≠ b.key → latest disk past' key = latest disk past key ∧
    t.disk key = s.disk key
  backed : b.dirty = false → ¬session.Unsaved i → (∀ d, d ≠ c → ¬(s.session d).Unsaved i) →
    t.disk b.key = latest disk past' b.key

/-- Such a step keeps the cache coherent. -/
theorem touch (inv : Coherent disk past s) {c : Client} {b : Buf} {session : Session}
    (at_i : Touch disk past past' s t c i b session) : Coherent disk past' t := by
  have buf_i : t.buf i = b := by rw [at_i.buf, update_self]
  have buf_ne (j : Fin nBuf) (apart : j ≠ i) : t.buf j = s.buf j := by
    rw [at_i.buf, update_of_ne apart]
  have session_c : t.session c = session := by rw [at_i.moves, update_self]
  have session_ne (d : Client) (apart : d ≠ c) : t.session d = s.session d := by
    rw [at_i.moves, update_of_ne apart]
  have mine (j : Fin nBuf) (uses : session.buf = some j) : j = i := by
    by_contra apart
    exact (at_i.uses j apart).2 uses
  have key_ne (j : Fin nBuf) (apart : j ≠ i) (real : (s.buf j).dev ≠ 0) :
      (s.buf j).key ≠ b.key := by
    intro same
    rcases at_i.key with stays | ⟨-, -, missing⟩
    · exact apart (inv.unique j i real (same.trans stays))
    · exact missing j same
  constructor
  case ring => exact at_i.ring
  case counted =>
    intro j
    have change := tally_update (fun session : Session => session.buf = some j) s.session c session
    rw [← at_i.moves, ← inv.counted j] at change
    by_cases here : j = i
    · rw [here] at change ⊢
      rw [buf_i]
      exact Nat.add_right_cancel (at_i.counted.trans change.symm)
    · rw [if_neg (at_i.uses j here).1, if_neg (at_i.uses j here).2] at change
      rw [buf_ne j here]
      exact change.symm
  case matched =>
    intro d r uses
    by_cases here : d = c
    · rw [here, session_c] at uses
      rw [mine r.buf (congrArg (Option.map Request.buf) uses), buf_i]
      exact at_i.matched r uses
    · rw [session_ne d here] at uses
      have matched := inv.matched d r uses
      by_cases there : r.buf = i
      · rcases at_i.key with stays | ⟨zero, -, -⟩
        · rw [there] at matched ⊢
          rw [buf_i, stays]
          exact matched
        · have uses' : (s.session d).buf = some r.buf := congrArg (Option.map Request.buf) uses
          exact absurd (there ▸ uses') (inv.unused zero d)
      · rw [buf_ne _ there]
        exact matched
  case locked =>
    intro d j has
    by_cases here : d = c
    · rw [here, session_c] at has
      obtain rfl := mine j has.uses
      rw [buf_i]
      exact (at_i.lock has).1
    · rw [session_ne d here] at has
      by_cases there : j = i
      · rw [there] at has ⊢
        rw [buf_i]
        exact (at_i.other d here has).1
      · rw [buf_ne j there]
        exact inv.locked d j has
  case alone =>
    intro d e j has_d has_e
    by_cases here : d = c
    · rw [here, session_c] at has_d
      obtain rfl := mine j has_d.uses
      by_contra apart
      rw [here] at apart
      rw [session_ne e (Ne.symm apart)] at has_e
      exact (at_i.lock has_d).2 e (Ne.symm apart) has_e
    · rw [session_ne d here] at has_d
      by_cases there : e = c
      · rw [there, session_c] at has_e
        obtain rfl := mine j has_e.uses
        exact absurd has_d ((at_i.lock has_e).2 d here)
      · rw [session_ne e there] at has_e
        exact inv.alone d e j has_d has_e
  case unique =>
    intro j k real same
    by_cases here : j = i
    · by_cases there : k = i
      · rw [here, there]
      · rw [here, buf_i] at real same
        rw [buf_ne k there] at same
        have real' : (s.buf k).dev ≠ 0 := fun zero => real ((congrArg Prod.fst same).trans zero)
        exact absurd same.symm (key_ne k there real')
    · rw [buf_ne j here] at real same
      by_cases there : k = i
      · rw [there, buf_i] at same
        exact absurd same (key_ne j here real)
      · rw [buf_ne k there] at same
        exact inv.unique j k real same
  case named =>
    intro j
    by_cases here : j = i
    · rw [here, buf_i]
      exact at_i.named
    · rw [buf_ne j here]
      exact inv.named j
  case filled =>
    intro j
    by_cases here : j = i
    · rw [here, buf_i]
      exact at_i.filled
    · rw [buf_ne j here]
      exact inv.filled j
  case returned =>
    intro d r saved holds
    by_cases here : d = c
    · rw [here, session_c] at holds
      rw [mine r.buf (by rw [holds]; rfl), buf_i]
      exact at_i.returned r saved holds
    · rw [session_ne d here] at holds
      have valid := inv.returned d r saved holds
      by_cases there : r.buf = i
      · rw [there] at valid ⊢
        rw [buf_i]
        exact (at_i.other d here (by rw [holds]; exact there)).2 valid
      · rwa [buf_ne _ there]
  case fresh =>
    intro j valid
    by_cases here : j = i
    · rw [here, buf_i] at valid ⊢
      exact at_i.fresh valid
    · rw [buf_ne j here] at valid ⊢
      rw [(at_i.elsewhere _ (key_ne j here (inv.named j valid))).1]
      exact inv.fresh j valid
  case backed =>
    intro key clean
    by_cases here : key = b.key
    · subst here
      obtain ⟨unmarked, saved⟩ := clean i (by rw [buf_i])
      rw [buf_i] at unmarked
      refine at_i.backed unmarked (session_c ▸ saved c) fun d apart => ?_
      exact session_ne d apart ▸ saved d
    · rw [(at_i.elsewhere key here).1, (at_i.elsewhere key here).2]
      by_cases old : key = (s.buf i).key
      · obtain ⟨zero, unmarked, -⟩ := at_i.key.resolve_left fun same => here (old.trans same.symm)
        rw [old]
        exact inv.clean_disk unmarked fun d unsaved => inv.unused zero d unsaved.has.uses
      · apply inv.backed
        intro j carries
        have apart : j ≠ i := by
          rintro rfl
          exact old carries.symm
        obtain ⟨unmarked, saved⟩ := clean j (by rw [buf_ne j apart, carries])
        rw [buf_ne j apart] at unmarked
        refine ⟨unmarked, fun d unsaved => ?_⟩
        by_cases there : d = c
        · exact (at_i.uses j apart).1 (there ▸ unsaved.has.uses)
        · apply saved d
          rw [session_ne d there]
          exact unsaved

end Coherent

/-! ## What a step can do -/

variable {i : Fin nBuf}

omit [DecidableEq Client] in
/-- `iderw` of a locked buffer without contents reads the block. -/
theorem iderw_read (locked : (s.buf i).locked = true) (empty : (s.buf i).valid = false)
    (clean : (s.buf i).dirty = false) :
    s.iderw driver i = match driver (s.buf i).dev (s.buf i).blockno with
      | some message => s.panic message
      | none => s.setBuf i { s.buf i with data := s.disk (s.buf i).key, valid := true } := by
  rw [iderw, if_neg (by simp [locked]), if_neg (by simp [empty])]
  cases driver (s.buf i).dev (s.buf i).blockno with
  | some message => rfl
  | none => exact if_neg (by simp [clean])

omit [DecidableEq Client] in
/-- `bwrite` of a locked buffer writes the block, and leaves the buffer dirty if the driver
refuses. -/
theorem bwrite_eq (locked : (s.buf i).locked = true) :
    s.bwrite driver i = match driver (s.buf i).dev (s.buf i).blockno with
      | some message => (s.setBuf i { s.buf i with dirty := true }).panic message
      | none => { s.setBuf i { s.buf i with dirty := false, valid := true } with
          disk := update s.disk (s.buf i).key (s.buf i).data } := by
  have marked : (s.setBuf i { s.buf i with dirty := true }).buf i =
      { s.buf i with dirty := true } := update_self ..
  rw [bwrite, if_neg (by simp [locked]), iderw, marked, if_neg (by simp [locked]),
    if_neg (by simp)]
  cases driver (s.buf i).dev (s.buf i).blockno with
  | some message => rfl
  | none => simp [setBuf, Buf.key]

omit [DecidableEq Client] in
/-- The two walks of `bget` end, and find what they look for if it is there. -/
theorem bget_spec (ring : ∃ order, s.links.Ring order ∧ ∀ i, i ∈ order) (dev blockno : UInt32) :
    (∃ i, s.bget dev blockno = some (some (i, { s.buf i with refcnt := (s.buf i).refcnt + 1 })) ∧
      (s.buf i).key = (dev, blockno)) ∨
    ((∀ i, (s.buf i).key ≠ (dev, blockno)) ∧
      ((∃ i, s.bget dev blockno = some (some (i, { s.buf i with
          dev := dev, blockno := blockno, valid := false, dirty := false, refcnt := 1 })) ∧
        (s.buf i).refcnt = 0 ∧ (s.buf i).dirty = false) ∨
      (s.bget dev blockno = some none ∧
        ∀ i, ¬((s.buf i).refcnt = 0 ∧ (s.buf i).dirty = false)))) := by
  obtain ⟨order, ring, all⟩ := ring
  have short : order.length < nBuf + 1 := by
    have bound := ring.nodup.length_le_card
    rw [Fintype.card_fin] at bound
    exact Nat.lt_succ_of_le bound
  unfold bget
  rw [ring.scan_next _ short, ring.scan_prev _ short]
  cases hit : order.find? fun i => decide ((s.buf i).dev = dev ∧ (s.buf i).blockno = blockno) with
  | some i =>
    left
    have found : (s.buf i).dev = dev ∧ (s.buf i).blockno = blockno := by
      simpa using List.find?_some hit
    exact ⟨i, rfl, Prod.ext found.1 found.2⟩
  | none =>
    right
    constructor
    · intro i same
      have absent := List.find?_eq_none.mp hit i (all i)
      simp only [decide_eq_true_eq] at absent
      exact absent ⟨congrArg Prod.fst same, congrArg Prod.snd same⟩
    · cases unused : order.reverse.find? fun i =>
        decide ((s.buf i).refcnt = 0 ∧ (s.buf i).dirty = false) with
      | some i =>
        left
        have found : (s.buf i).refcnt = 0 ∧ (s.buf i).dirty = false := by
          simpa using List.find?_some unused
        exact ⟨i, rfl, found.1, found.2⟩
      | none =>
        right
        refine ⟨rfl, fun i free => ?_⟩
        have absent := List.find?_eq_none.mp unused i (List.mem_reverse.mpr (all i))
        simp only [decide_eq_true_eq] at absent
        exact absent free

/-- The steps of a coherent cache. -/
inductive Move (driver : Driver) (disk : UInt32 × UInt32 → Block) (past : List (CacheEvent Client))
    (s : CacheState Client) : CacheEvent Client → CacheState Client → Prop where
  | halt {event : CacheEvent Client} (message : String)
      (stored : ∀ key, latest disk (event :: past) key = latest disk past key)
      (cause : message = "bget: no buffers" → (∃ dev blockno, driver dev blockno = some message) ∨
        ∃ c dev blockno, event = .get c dev blockno ∧ s.bget dev blockno = some none) :
      Move driver disk past s event (s.panic message)
  | touch {event : CacheEvent Client} {t : CacheState Client} {i : Fin nBuf} {b : Buf}
      {session : Session}
      (at_i : Coherent.Touch disk past (event :: past) s t event.client i b session)
      (marks : t.panicked = none → b.dirty = true →
        (s.buf i).dirty = true ∧ (∀ c, event ≠ .bwrite c) ∨
        ∃ c, event = .logWrite c ∧ (s.session c).buf = some i)
      (cause : t.panicked = s.panicked ∨ ∃ dev blockno, t.panicked = driver dev blockno) :
      Move driver disk past s event t

namespace Coherent

variable [Fintype Client]

variable {c : Client} {r : Request} {b : Buf} {session : Session} {i : Fin nBuf}
  {dev blockno : UInt32} {data : Block} {saved : Bool} {event : CacheEvent Client}

omit [DecidableEq Client] in
/-- Where the client with the lock has changed nothing, the disk has what a clean buffer has. -/
theorem clean_disk_of_has (inv : Coherent disk past s) (uses : (s.session c).request = some r)
    (has : (s.session c).Has r.buf) (saved : ¬(s.session c).Unsaved r.buf)
    (clean : (s.buf r.buf).dirty = false) : s.disk r.key = latest disk past r.key := by
  rw [← (inv.matched c r uses).1]
  refine inv.clean_disk clean fun d unsaved => saved ?_
  exact inv.alone d c r.buf unsaved.has has ▸ unsaved

section

variable (inv : Coherent disk past s)

include inv

/-- A client that has the lock acts on its buffer. -/
theorem touch_of_has (uses : (s.session c).request = some r) (has : (s.session c).Has r.buf)
    (buf : t.buf = update s.buf r.buf b) (moves : t.session = update s.session c session)
    (links : t.links = s.links) (stays : session.request = some r) (key : b.key = (s.buf r.buf).key)
    (refcnt : b.refcnt = (s.buf r.buf).refcnt) (locked : session.Has r.buf → b.locked = true)
    (valid : b.valid = true) (data : b.data = latest disk past' r.key)
    (elsewhere : ∀ key, key ≠ r.key → latest disk past' key = latest disk past key ∧
      t.disk key = s.disk key)
    (newer : b.dirty = false → ¬session.Unsaved r.buf → t.disk r.key = latest disk past' r.key) :
    Touch disk past past' s t c r.buf b session := by
  obtain ⟨same, real⟩ := inv.matched c r uses
  have key' : b.key = r.key := key.trans same
  have before : (s.session c).buf = some r.buf := congrArg (Option.map Request.buf) uses
  have after : session.buf = some r.buf := congrArg (Option.map Request.buf) stays
  constructor
  case buf => exact buf
  case moves => exact moves
  case ring => exact links ▸ inv.ring
  case uses =>
    intro j apart
    rw [before, after, and_self]
    exact fun same => apart (Option.some.inj same).symm
  case counted => rw [if_pos before, if_pos after, refcnt]
  case key => exact .inl key
  case matched =>
    intro r' uses'
    obtain rfl := Option.some.inj (stays.symm.trans uses')
    exact ⟨key', real⟩
  case lock => exact fun now => ⟨locked now, fun d apart there => apart (inv.alone d c _ there has)⟩
  case other => exact fun d apart there => absurd (inv.alone d c _ there has) apart
  case named => exact fun _ zero => real ((congrArg Prod.fst key').symm.trans zero)
  case filled => exact fun _ => valid
  case returned => exact fun _ _ _ => valid
  case fresh => exact fun _ => key' ▸ data
  case elsewhere => exact key' ▸ elsewhere
  case backed => exact fun clean saved _ => key' ▸ newer clean saved

/-- A client that has not the lock acts on a buffer, and leaves its block and its contents. -/
theorem touch_of_free (buf : t.buf = update s.buf i b)
    (moves : t.session = update s.session c session)
    (ring : ∃ order, t.links.Ring order ∧ ∀ j, j ∈ order)
    (uses : ∀ j, j ≠ i → (s.session c).buf ≠ some j ∧ session.buf ≠ some j)
    (counted : b.refcnt + (if (s.session c).buf = some i then 1 else 0) =
      (s.buf i).refcnt + if session.buf = some i then 1 else 0)
    (same : b = { s.buf i with locked := b.locked, refcnt := b.refcnt })
    (matched : ∀ r, session.request = some r → (s.buf i).key = r.key ∧ r.key.1 ≠ 0)
    (lock : session.Has i → b.locked = true ∧ ∀ d, ¬(s.session d).Has i)
    (other : (s.buf i).locked = true → b.locked = true) (free : ¬(s.session c).Has i)
    (waits : ∀ r saved, session ≠ .holding r saved)
    (stored : ∀ key, latest disk past' key = latest disk past key) (disks : t.disk = s.disk) :
    Touch disk past past' s t c i b session := by
  have key : b.key = (s.buf i).key := by rw [same]; rfl
  have dev : b.dev = (s.buf i).dev := congrArg Prod.fst key
  have valid : b.valid = (s.buf i).valid := by rw [same]
  have dirty : b.dirty = (s.buf i).dirty := by rw [same]
  have data : b.data = (s.buf i).data := by rw [same]
  constructor
  case buf => exact buf
  case moves => exact moves
  case ring => exact ring
  case uses => exact uses
  case counted => exact counted
  case key => exact .inl key
  case matched => exact key ▸ matched
  case lock => exact fun has => ⟨(lock has).1, fun d _ => (lock has).2 d⟩
  case other => exact fun d _ has => ⟨other (inv.locked d i has), fun is => valid.trans is⟩
  case named => exact valid ▸ dev ▸ inv.named i
  case filled => exact valid ▸ dirty ▸ inv.filled i
  case returned => exact fun r saved holds => absurd holds (waits r saved)
  case fresh =>
    rw [valid, data, key, stored]
    exact inv.fresh i
  case elsewhere => exact fun key _ => ⟨stored key, congrFun disks key⟩
  case backed =>
    intro clean _ saved
    rw [key, stored, disks]
    refine inv.clean_disk (dirty ▸ clean) fun d unsaved => ?_
    by_cases here : d = c
    · exact free (here ▸ unsaved.has)
    · exact saved d here unsaved

/-- `bget` finds the block. -/
theorem move_hit (idle : s.session c = .idle) (real : dev ≠ 0)
    (found : (s.buf i).key = (dev, blockno)) :
    Move driver disk past s (.get c dev blockno)
      ((s.setBuf i { s.buf i with refcnt := (s.buf i).refcnt + 1 }).goto c
        (.waiting ⟨i, (dev, blockno)⟩)) := by
  refine .touch (inv.touch_of_free (c := c) rfl rfl inv.ring ?uses ?counted rfl ?matched ?lock id
    ?free ?waits (fun _ => rfl) rfl) (fun _ same => .inl ⟨same, nofun⟩) (.inl rfl)
  case uses =>
    intro j apart
    simpa [idle, Session.buf, Session.request] using apart.symm
  case counted => simp [idle, Session.buf, Session.request]
  case matched =>
    intro r uses
    obtain rfl := Option.some.inj uses
    exact ⟨found, real⟩
  case lock => exact False.elim
  case free => simp [idle, Session.Has]
  case waits => simp

/-- `brelse` gives the buffer back. -/
theorem move_drop (releases : s.session c = .releasing r) :
    Move driver disk past s (.drop c) ((s.brelse r.buf).goto c .idle) := by
  have uses : (s.session c).buf = some r.buf := by rw [releases]; rfl
  have positive : 0 < (s.buf r.buf).refcnt := by
    rw [inv.counted]
    exact tally_pos (fun session : Session => session.buf = some r.buf) uses
  rw [brelse_eq]
  refine .touch (inv.touch_of_free (c := c) rfl rfl ?ring ?uses ?counted rfl ?matched ?lock id ?free
    ?waits (fun _ => rfl) rfl) (fun _ same => .inl ⟨same, nofun⟩) (.inl rfl)
  case ring =>
    obtain ⟨order, ring, all⟩ := inv.ring
    simp only [goto]
    split
    · refine ⟨r.buf :: order.erase r.buf, ?_, fun i => ?_⟩
      · apply (ring.unlink (all r.buf)).pushFront
        exact ring.nodup.not_mem_erase
      · by_cases here : i = r.buf
        · exact here ▸ .head _
        · exact .tail _ ((List.mem_erase_of_ne here).mpr (all i))
    · exact ⟨order, ring, all⟩
  case uses =>
    intro j apart
    simpa [releases, Session.buf, Session.request] using apart.symm
  case counted =>
    rw [if_pos uses, if_neg (by simp [Session.buf, Session.request])]
    exact Nat.sub_add_cancel positive
  case matched => simp [Session.request]
  case lock => exact False.elim
  case free => simp [releases, Session.Has]
  case waits => simp

/-- `bget` recycles a buffer that nobody uses and that is not dirty. -/
theorem move_recycle (idle : s.session c = .idle) (real : dev ≠ 0)
    (missing : ∀ j, (s.buf j).key ≠ (dev, blockno)) (unused : (s.buf i).refcnt = 0)
    (clean : (s.buf i).dirty = false) :
    Move driver disk past s (.get c dev blockno)
      ((s.setBuf i { s.buf i with
        dev := dev, blockno := blockno, valid := false, dirty := false, refcnt := 1 }).goto c
          (.waiting ⟨i, (dev, blockno)⟩)) := by
  have nobody (d : Client) (has : (s.session d).Has i) : False := inv.unused unused d has.uses
  refine .touch (i := i) ⟨rfl, rfl, inv.ring, ?uses, ?counted, .inr ⟨unused, clean, missing⟩,
    ?matched, False.elim, fun d _ has => (nobody d has).elim, fun _ => real, ?filled, ?returned,
    ?fresh, fun _ _ => ⟨rfl, rfl⟩, ?backed⟩ nofun (.inl rfl)
  case uses =>
    intro j apart
    simpa [idle, Session.buf, Session.request] using apart.symm
  case counted => simp [idle, unused, Session.buf, Session.request]
  case matched =>
    intro r uses
    obtain rfl := Option.some.inj uses
    exact ⟨rfl, real⟩
  case filled => simp
  case returned => simp
  case fresh => simp
  case backed => exact fun _ _ _ => inv.backed _ fun j carries => absurd carries (missing j)

/-- `bget` finds the block, takes another buffer or panics. -/
theorem move_get (idle : s.session c = .idle) (real : dev ≠ 0)
    (taken : ((s.bget dev blockno).map fun
      | some (i, b) => (s.setBuf i b).goto c (.waiting ⟨i, (dev, blockno)⟩)
      | none => s.panic "bget: no buffers") = some t) :
    Move driver disk past s (.get c dev blockno) t := by
  rcases bget_spec inv.ring dev blockno with
    ⟨i, got, found⟩ | ⟨missing, ⟨i, got, unused, clean⟩ | ⟨got, -⟩⟩
  · rw [got] at taken
    obtain rfl := Option.some.inj taken
    exact inv.move_hit idle real found
  · rw [got] at taken
    obtain rfl := Option.some.inj taken
    exact inv.move_recycle idle real missing unused clean
  · rw [got] at taken
    obtain rfl := Option.some.inj taken
    exact .halt _ (fun _ => rfl) fun _ => .inr ⟨c, dev, blockno, rfl, got⟩

/-- The sleep lock of the buffer is taken. -/
theorem move_lock (waits : s.session c = .waiting r) (unlocked : (s.buf r.buf).locked = false) :
    Move driver disk past s (.lock c)
      ((s.setBuf r.buf { s.buf r.buf with locked := true }).goto c (.locked r)) := by
  have uses : (s.session c).buf = some r.buf := by rw [waits]; rfl
  have nobody (d : Client) : ¬(s.session d).Has r.buf := fun has => by
    rw [inv.locked d r.buf has] at unlocked
    contradiction
  refine .touch (inv.touch_of_free (c := c) rfl rfl inv.ring ?uses ?counted rfl ?matched
    (fun _ => ⟨rfl, nobody⟩) (fun _ => rfl) (nobody c) ?waits (fun _ => rfl) rfl)
    (fun _ same => .inl ⟨same, nofun⟩) (.inl rfl)
  case uses =>
    intro j apart
    simpa [waits, Session.buf, Session.request] using apart.symm
  case counted => rw [if_pos uses, if_pos (by rfl)]
  case matched =>
    intro r' uses'
    obtain rfl := Option.some.inj uses'
    exact inv.matched c r (by rw [waits]; rfl)
  case waits => simp

/-- The return of `bread`: unless the driver refuses, the buffer has the contents last stored to the
block. -/
theorem move_read (driver : Driver) (data : Block)
    (locks : s.session c = .locked r) (asked : r.key = (dev, blockno)) :
    (∃ message, s.bread driver r.buf = s.panic message ∧
      ∃ dev blockno, driver dev blockno = some message) ∨
    ((s.bread driver r.buf).panicked = s.panicked ∧
      ((s.bread driver r.buf).buf r.buf).data = latest disk past (dev, blockno) ∧
      Move driver disk past s (.read c dev blockno data)
        ((s.bread driver r.buf).goto c (.holding r true))) := by
  have uses : (s.session c).request = some r := by rw [locks]; rfl
  have has : (s.session c).Has r.buf := by rw [locks]; rfl
  have locked := inv.locked c r.buf has
  obtain ⟨same, -⟩ := inv.matched c r uses
  cases empty : (s.buf r.buf).valid with
  | false =>
    have clean : (s.buf r.buf).dirty = false := by
      by_contra marked
      rw [inv.filled r.buf (by simpa using marked)] at empty
      contradiction
    have stored := inv.clean_disk_of_has uses has (by rw [locks]; exact id) clean
    rw [bread, if_pos empty, iderw_read locked empty clean, same]
    cases refused : driver (s.buf r.buf).dev (s.buf r.buf).blockno with
    | some message => exact .inl ⟨message, rfl, _, _, refused⟩
    | none =>
      right
      refine ⟨rfl, ?_, .touch (inv.touch_of_has uses has rfl rfl rfl rfl rfl rfl
        (fun _ => locked) rfl stored (fun _ _ => ⟨rfl, rfl⟩) fun _ _ => stored)
        (fun _ same => .inl ⟨same, nofun⟩) (.inl rfl)⟩
      rw [← asked, ← stored]
      simp [setBuf]
  | true =>
    right
    have fresh := inv.fresh r.buf empty
    rw [same] at fresh
    rw [bread, if_neg (by simp [empty])]
    have still : s.buf = update s.buf r.buf (s.buf r.buf) :=
      (update_eq_self ..).symm
    refine ⟨rfl, by rw [fresh, asked], .touch (inv.touch_of_has uses has still rfl rfl rfl rfl
      rfl (fun _ => locked) empty fresh (fun _ _ => ⟨rfl, rfl⟩) fun clean _ => ?_)
      (fun _ same => .inl ⟨same, nofun⟩) (.inl rfl)⟩
    exact inv.clean_disk_of_has uses has (by rw [locks]; exact id) clean

/-- The holder changes the contents. -/
theorem move_store (holds : s.session c = .holding r saved) (asked : r.key = (dev, blockno)) :
    Move driver disk past s (.store c dev blockno data)
      ((s.setBuf r.buf { s.buf r.buf with data := data }).goto c (.holding r false)) := by
  have uses : (s.session c).request = some r := by rw [holds]; rfl
  have has : (s.session c).Has r.buf := by rw [holds]; rfl
  refine .touch (inv.touch_of_has uses has rfl rfl rfl rfl rfl rfl ?locked ?valid ?data
    ?elsewhere ?newer) (fun _ same => .inl ⟨same, nofun⟩) (.inl rfl)
  case locked => exact fun _ => inv.locked c r.buf has
  case valid => exact inv.returned c r saved holds
  case data => simp [latest, asked]
  case elsewhere =>
    intro key apart
    rw [asked] at apart
    simp [latest, apart.symm, goto, setBuf]
  case newer => exact fun _ unsaved => absurd rfl unsaved

/-- `log_write`, or a `bwrite` whose request the driver refuses. -/
theorem move_mark (message : Option String)
    (stored : ∀ key, latest disk (event :: past) key = latest disk past key)
    (holds : s.session event.client = .holding r saved)
    (marks : message = none → event = .logWrite event.client)
    (cause : message = s.panicked ∨ ∃ dev blockno, message = driver dev blockno) :
    Move driver disk past s event
      { (s.setBuf r.buf { s.buf r.buf with dirty := true }).goto event.client (.holding r true) with
        panicked := message } := by
  have uses : (s.session event.client).request = some r := by rw [holds]; rfl
  have has : (s.session event.client).Has r.buf := by rw [holds]; rfl
  have valid := inv.returned event.client r saved holds
  have fresh := inv.fresh r.buf valid
  rw [(inv.matched _ r uses).1] at fresh
  refine .touch (inv.touch_of_has uses has rfl rfl rfl rfl rfl rfl ?locked ?valid ?data
    ?elsewhere ?newer) (fun runs _ => .inr ⟨_, marks runs, has.uses⟩) cause
  case locked => exact fun _ => inv.locked event.client r.buf has
  case valid => exact valid
  case data => rw [stored]; exact fresh
  case elsewhere => exact fun key _ => ⟨stored key, rfl⟩
  case newer => intro clean; contradiction

/-- `bwrite` stores them. -/
theorem move_bwrite (holds : s.session c = .holding r saved) :
    Move driver disk past s (.bwrite c) ((s.bwrite driver r.buf).goto c (.holding r true)) := by
  have uses : (s.session c).request = some r := by rw [holds]; rfl
  have has : (s.session c).Has r.buf := by rw [holds]; rfl
  have locked := inv.locked c r.buf has
  have valid := inv.returned c r saved holds
  have same := (inv.matched c r uses).1
  have fresh := inv.fresh r.buf valid
  rw [same] at fresh
  rw [bwrite_eq locked, same]
  cases refused : driver (s.buf r.buf).dev (s.buf r.buf).blockno with
  | some message =>
    exact inv.move_mark (some message) (fun _ => rfl) holds nofun (.inr ⟨_, _, refused.symm⟩)
  | none =>
    refine .touch (inv.touch_of_has uses has rfl rfl rfl rfl rfl rfl ?locked ?valid ?data
      ?elsewhere ?newer) nofun (.inl rfl)
    case locked => exact fun _ => locked
    case valid => rfl
    case data => exact fresh
    case elsewhere => exact fun key apart => ⟨rfl, update_of_ne apart _ _⟩
    case newer =>
      intro _ _
      show update s.disk r.key (s.buf r.buf).data r.key = _
      rw [update_self, fresh]
      rfl

/-- The sleep lock is released. -/
theorem move_release (holds : s.session c = .holding r true) :
    Move driver disk past s (.release c)
      ((s.setBuf r.buf { s.buf r.buf with locked := false }).goto c (.releasing r)) := by
  have uses : (s.session c).request = some r := by rw [holds]; rfl
  have has : (s.session c).Has r.buf := by rw [holds]; rfl
  have valid := inv.returned c r true holds
  have fresh := inv.fresh r.buf valid
  rw [(inv.matched c r uses).1] at fresh
  refine .touch (inv.touch_of_has uses has rfl rfl rfl rfl rfl rfl ?locked ?valid ?data
    ?elsewhere ?newer) (fun _ same => .inl ⟨same, nofun⟩) (.inl rfl)
  case locked => exact fun has => has.elim
  case valid => exact valid
  case data => exact fresh
  case elsewhere => exact fun _ _ => ⟨rfl, rfl⟩
  case newer => exact fun clean _ => inv.clean_disk_of_has uses has (by rw [holds]; exact id) clean

/-- Every step is such a move. -/
theorem move_of_step (taken : step driver s event = some t) : Move driver disk past s event t := by
  unfold step at taken
  split at taken
  · contradiction
  rename_i running
  cases event with
  | get c dev blockno =>
    obtain ⟨⟨idle, real⟩, got⟩ := Option.ite_none_right_eq_some.mp taken
    exact inv.move_get idle real got
  | lock c =>
    simp only at taken
    split at taken
    · rename_i r waits
      split at taken
      · contradiction
      · rename_i unlocked
        obtain rfl := Option.some.inj taken
        exact inv.move_lock waits (by simpa using unlocked)
    · contradiction
  | read c dev blockno data =>
    simp only at taken
    split at taken
    · rename_i r locks
      obtain ⟨asked, taken⟩ := Option.ite_none_right_eq_some.mp taken
      rcases inv.move_read driver data locks asked with ⟨message, stops, refused⟩ | ⟨same, -, move⟩
      · rw [stops] at taken
        obtain rfl : s.panic message = t := by simpa [panic] using taken
        exact .halt message (fun _ => rfl) fun _ => .inl refused
      · rw [if_neg (by rw [same]; exact running)] at taken
        obtain ⟨-, ⟨⟩⟩ := Option.ite_none_right_eq_some.mp taken
        exact move
    · contradiction
  | store c dev blockno data =>
    simp only at taken
    split at taken
    · rename_i r saved holds
      obtain ⟨asked, ⟨⟩⟩ := Option.ite_none_right_eq_some.mp taken
      exact inv.move_store holds asked
    · contradiction
  | bwrite c =>
    simp only at taken
    split at taken
    · rename_i r saved holds
      obtain rfl := Option.some.inj taken
      exact inv.move_bwrite holds
    · contradiction
  | logWrite c =>
    simp only at taken
    split at taken
    · rename_i r saved holds
      obtain rfl := Option.some.inj taken
      exact inv.move_mark s.panicked (fun _ => rfl) holds (fun _ => rfl) (.inl rfl)
    · contradiction
  | release c =>
    simp only at taken
    split at taken
    · rename_i r holds
      split at taken
      · obtain rfl := Option.some.inj taken
        exact .halt _ (fun _ => rfl) (by simp)
      · obtain rfl := Option.some.inj taken
        exact inv.move_release holds
    · contradiction
  | drop c =>
    simp only at taken
    split at taken
    · rename_i r releases
      obtain rfl := Option.some.inj taken
      exact inv.move_drop releases
    · contradiction

/-- Every step keeps the cache coherent. -/
theorem step (taken : CacheState.step driver s event = some t) :
    Coherent disk (event :: past) t := by
  cases inv.move_of_step taken with
  | halt message stored _ =>
    exact ⟨inv.ring, inv.counted, inv.matched, inv.locked, inv.alone, inv.unique, inv.named,
      inv.filled, inv.returned, fun i valid => (inv.fresh i valid).trans (stored _).symm,
      fun key clean => (inv.backed key clean).trans (stored _).symm⟩
  | touch at_i _ _ => exact inv.touch at_i

end

/-- The cache is coherent after every history. -/
theorem ran (history : Ran driver disk past s) : Coherent disk past s := by
  apply History.invariant (Coherent disk) _ (fun _ _ _ _ _ inv taken => inv.step taken) history
  rintro s rfl
  constructor
  case ring => exact ⟨_, binit_ring, by simp⟩
  case counted =>
    intro i
    simp [booted, Buf.blank, tally, Session.buf, Session.request]
  case matched => simp [booted, Session.request]
  case locked => simp [booted, Session.Has]
  case alone => simp [booted, Session.Has]
  case unique => simp [booted, Buf.blank]
  case named => simp [booted, Buf.blank]
  case filled => simp [booted, Buf.blank]
  case returned => simp [booted]
  case fresh => simp [booted, Buf.blank]
  case backed => exact fun _ _ => rfl

/-- A step moves no buffer that is in use or dirty to another block. -/
theorem pinned (inv : Coherent disk past s) (taken : CacheState.step driver s event = some t)
    (i : Fin nBuf) (busy : 0 < (s.buf i).refcnt ∨ (s.buf i).dirty = true) :
    (t.buf i).key = (s.buf i).key := by
  cases inv.move_of_step taken with
  | halt => rfl
  | @touch _ j _ _ at_j _ _ =>
    rw [at_j.buf]
    by_cases here : i = j
    · rw [here] at busy ⊢
      rw [update_self]
      rcases at_j.key with same | ⟨unused, clean, -⟩
      · exact same
      · simp [unused, clean] at busy
    · rw [update_of_ne here]

/-- What a process reads is what was written last. -/
theorem reads (inv : Coherent disk past s)
    (taken : CacheState.step driver s (.read c dev blockno data) = some t)
    (runs : t.panicked = none) : data = latest disk past (dev, blockno) := by
  unfold CacheState.step at taken
  split at taken
  · contradiction
  rename_i running
  simp only at taken
  split at taken
  · rename_i r locks
    obtain ⟨asked, taken⟩ := Option.ite_none_right_eq_some.mp taken
    rcases inv.move_read driver data locks asked with ⟨message, stops, -⟩ | ⟨same, last, -⟩
    · rw [stops] at taken
      obtain rfl : s.panic message = t := by simpa [panic] using taken
      simp [panic] at runs
    · rw [if_neg (by rw [same]; exact running)] at taken
      obtain ⟨shown, -⟩ := Option.ite_none_right_eq_some.mp taken
      rw [← shown, last]
  · contradiction

end Coherent

/-! ## The theorem -/

/-- **Buffer-cache coherence.** After every history of clients over any disk and driver: the
pointers form one ring through the head with every buffer in it once; no two buffers are for the
same block of a device other than 0; no step gives a buffer that is in use or dirty to another
block; what `bread` returns is what was most recently stored to the block; and the walks of `bget`
end. -/
theorem bcache_coherent [Fintype Client] (history : Ran driver disk past s) :
    (∃ order, s.links.Ring order ∧ ∀ i, i ∈ order) ∧
    (∀ i j, (s.buf i).dev ≠ 0 → (s.buf i).dev = (s.buf j).dev →
      (s.buf i).blockno = (s.buf j).blockno → i = j) ∧
    (∀ event t, step driver s event = some t → ∀ i,
      0 < (s.buf i).refcnt ∨ (s.buf i).dirty = true →
        (t.buf i).dev = (s.buf i).dev ∧ (t.buf i).blockno = (s.buf i).blockno) ∧
    (∀ c dev blockno data t, step driver s (.read c dev blockno data) = some t →
      t.panicked = none → data = latest disk past (dev, blockno)) ∧
    ∀ dev blockno, s.bget dev blockno ≠ none := by
  have inv := Coherent.ran history
  refine ⟨inv.ring, fun i j real dev blockno => ?_, fun event t taken i busy => ?_,
    fun c dev blockno data t taken runs => inv.reads taken runs, fun dev blockno => ?_⟩
  · exact inv.unique i j real (Prod.ext dev blockno)
  · have same := inv.pinned taken i busy
    exact ⟨congrArg Prod.fst same, congrArg Prod.snd same⟩
  · rcases bget_spec inv.ring dev blockno with ⟨i, got, -⟩ | ⟨-, ⟨i, got, -⟩ | ⟨got, -⟩⟩
    · simp [got]
    · simp [got]
    · simp [got]

/-- A block stored through one buffer and read again after `brelse`. -/
theorem bcache_coherent_reread : ∃ (past : List (CacheEvent Unit)) (s t : CacheState Unit),
    Ran (memide 10) (fun _ => Bytes.zero) past s ∧
      step (memide 10) s (.read () 1 5 fun _ => 7) = some t ∧ t.panicked = none ∧
      (fun _ => 7) = latest (fun _ => Bytes.zero) past (1, 5) := by
  let labels : List (CacheEvent Unit) := [.get () 1 5, .lock (), .read () 1 5 Bytes.zero,
    .store () 1 5 fun _ => 7, .logWrite (), .release (), .drop (), .get () 1 5, .lock ()]
  have runs : (replay (step (memide 10)) labels (booted Unit fun _ => Bytes.zero)).any
      (fun s => (step (memide 10) s (.read () 1 5 fun _ => 7)).any
        fun t => t.panicked.isNone) = true := by
    decide +kernel
  obtain ⟨s, history, reads⟩ : ∃ s, Ran (memide 10) (fun _ => Bytes.zero) labels.reverse s ∧ _ :=
    History.of_replay rfl runs
  obtain ⟨t, taken, running⟩ := (Option.any_eq_true _ _).mp reads
  have running : t.panicked = none := by simpa using running
  exact ⟨_, s, t, history, taken, running,
    (bcache_coherent history).2.2.2.1 () 1 5 _ t taken running⟩

/-- Right after `binit` all buffers are for block 0 of device 0. -/
theorem binit_buffers_alike : ∃ s : CacheState Unit, Ran (memide 10) (fun _ => Bytes.zero) [] s ∧
    ∃ i j, i ≠ j ∧ (s.buf i).dev = (s.buf j).dev ∧ (s.buf i).blockno = (s.buf j).blockno :=
  ⟨_, .nil rfl, ⟨0, by decide⟩, ⟨1, by decide⟩, by decide, rfl, rfl⟩

end CacheState

end Xv6
