import Xv6.Verif.DirRead
import Xv6.Verif.MkfsFiles

/-!
# The image that `mkfs` makes

Between its calls `mkfs` has an image in which every inode has its type, its size and its bytes. So
the image holds the root directory and the files, and the kernel finds and reads them.
-/

namespace Xv6.Mkfs

open Lib Function

/-- What is stored for an inode. -/
structure Stored where
  type : UInt16
  bytes : List UInt8

/-- Nothing is stored. -/
def Stored.none : Stored := ⟨0, []⟩

/-- The image holds files, one for each inode. -/
structure Made (s : State) (files : Nat → Stored) : Prop where
  sectors : s.sectors = fsSize
  super : getSuperblock (s.disk 1) = sb
  start : nmeta ≤ s.freeblock
  fresh : ∀ i, s.freeinode ≤ i → files i = .none
  types : ∀ i, i < table.ninodes → (s.dinode i).type = (files i).type
  sizes : ∀ i, i < table.ninodes → (s.dinode i).size.toNat = (files i).bytes.length
  laid : Laid (s.volume s.dinode) (fun i => (files i).bytes)
    (fun i => dataBlocks (files i).bytes.length)

variable {stops : String → Prop} {s t : State} {files : Nat → Stored} {inum : Nat}

/-! ## Inodes -/

/-- The image with an inode stored. -/
def State.setDinode (s : State) (inum : Nat) (d : Dinode) : State :=
  { s with
    disk := update s.disk (sb.iblock inum)
      (putDinode (s.disk (sb.iblock inum)) (inum % ipb * dinodeSize) d) }

/-- One inode changes. -/
theorem State.dinode_setDinode (s : State) (inum : Nat) (d : Dinode) (i : Nat) :
    (s.setDinode inum d).dinode i = if i = inum then d else s.dinode i :=
  Store.dinode_setDinode ⟨s.disk, sb, fun _ => ⟨0, 0, false, Dinode.zero⟩⟩ inum d i

/-- The inode blocks come before the bitmap and the data blocks. -/
theorem iblock_lt (numbered : inum < table.ninodes) :
    2 ≤ sb.iblock inum ∧ sb.iblock inum < sb.bmapstart := by
  have bound : inum < 208 := numbered
  show 2 ≤ inum / 8 + 32 ∧ inum / 8 + 32 < 58
  omega

variable {b : Nat} {β : Type} {post : β → State → Prop} {type : UInt16} {bytes : List UInt8}
  {done : List HostFile}

/-- Blocks outside the inode blocks stay. -/
theorem State.disk_setDinode (s : State) (numbered : inum < table.ninodes) (d : Dinode)
    (outside : b < 2 ∨ sb.bmapstart ≤ b) : (s.setDinode inum d).disk b = s.disk b := by
  have place := iblock_lt numbered
  exact update_of_ne (by omega) _ _

/-- `winode` stores an inode. -/
theorem winode_spec (sectors : s.sectors = fsSize) (numbered : inum < table.ninodes) (d : Dinode) :
    Wp stops (winode inum d) (fun _ t => t = s.setDinode inum d) s := by
  have inside : sb.iblock inum < s.sectors := by
    rw [sectors]
    exact (iblock_lt numbered).2.trans (by decide)
  unfold winode
  apply rsect_spec inside
  exact wsect_spec inside

/-- `rinode` reads it. -/
theorem rinode_spec {rest : Dinode → MkfsM β} (sectors : s.sectors = fsSize)
    (numbered : inum < table.ninodes) (after : Wp stops (rest (s.dinode inum)) post s) :
    Wp stops (rinode inum >>= rest) post s := by
  have inside : sb.iblock inum < s.sectors := by
    rw [sectors]
    exact (iblock_lt numbered).2.trans (by decide)
  have read : Wp stops (rinode inum) (fun d t => d = s.dinode inum ∧ t = s) s := by
    unfold rinode
    apply rsect_spec inside
    exact Wp.pure ⟨rfl, rfl⟩
  apply Wp.bind read
  rintro _ _ ⟨rfl, rfl⟩
  exact after

section

variable {nodes : Nat → Dinode} {content : Nat → List UInt8} {room : Nat → Nat}

variable (laid : Laid (s.volume nodes) content room)

include laid

/-- An inode in memory changes, but not its type or its blocks. -/
theorem Laid.resize {d : Dinode} (typed : (nodes inum).type ≠ 0) (type : d.type = (nodes inum).type)
    (addrs : d.addrs = (nodes inum).addrs) :
    Laid (s.volume (update nodes inum d)) content room := by
  have refers (r : Nat × Place) (c : Nat) :
      ((s.volume nodes).setNode inum d).Refers table r c ↔ (s.volume nodes).Refers table r c :=
    Volume.refers_setNode typed (by rw [type]; exact typed) addrs r c
  exact laid.congr refers rfl fun _ _ => rfl

/-- An inode contains the bytes that are laid out for it. -/
theorem Laid.contains (i : Nat) : (nodes i).Contains s.disk (content i) := by
  intro k inside
  obtain ⟨place, there, b, refers, byte⟩ := laid.bytes i k _ (List.getElem?_eq_getElem inside)
  obtain ⟨-, -, nonzero, block⟩ := refers
  refine ⟨place, there, ?_⟩
  rw [show (nodes i).blockAt s.disk place = b from block]
  exact ⟨nonzero, byte⟩

/-- The image with the inode stored. -/
theorem Laid.store (numbered : inum < table.ninodes)
    (others : ∀ i, i < table.ninodes → i ≠ inum → s.dinode i = nodes i) :
    Laid ((s.setDinode inum (nodes inum)).volume (s.setDinode inum (nodes inum)).dinode)
      content room := by
  refine laid.congr_nodes ?_ rfl ?_
  · intro i numbered'
    show (s.setDinode inum (nodes inum)).dinode i = nodes i
    rw [State.dinode_setDinode]
    split
    · rename_i here
      rw [here]
    · rename_i other
      exact others i numbered' other
  · intro b data
    exact s.disk_setDinode numbered _ (.inr (Nat.le_trans (by decide) data))

end

/-- A file of the image gets its new contents. -/
theorem Made.store (made : Made s files) {u : State} (d : Dinode) {file : Stored}
    (ext : Extends s u) (start : nmeta ≤ u.freeblock) (numbered : inum < table.ninodes)
    (type : d.type = file.type) (size : d.size.toNat = file.bytes.length)
    (fresh : ∀ i, t.freeinode ≤ i → update files inum file i = .none)
    (stored : t = { u.setDinode inum d with freeinode := t.freeinode })
    (laid : Laid (u.volume (update s.dinode inum d))
      (fun i => (update files inum file i).bytes)
      (fun i => dataBlocks (update files inum file i).bytes.length)) :
    Made t (update files inum file) := by
  have same (i : Nat) (numbered : i < table.ninodes) : u.dinode i = s.dinode i := by
    unfold State.dinode
    rw [ext.metadata _ ((iblock_lt numbered).2.trans (by decide))]
  have inode (i : Nat) (numbered : i < table.ninodes) :
      t.dinode i = update s.dinode inum d i := by
    rw [stored]
    show (u.setDinode inum d).dinode i = _
    rw [State.dinode_setDinode, update_apply, same i numbered]
  constructor
  case sectors =>
    rw [stored]
    exact ext.sectors.trans made.sectors
  case super =>
    rw [stored]
    show getSuperblock ((u.setDinode inum d).disk 1) = sb
    rw [u.disk_setDinode numbered d (.inl (by decide)), ext.metadata 1 (by decide)]
    exact made.super
  case start =>
    rw [stored]
    exact start
  case fresh => exact fresh
  case types =>
    intro i numbered'
    rw [inode i numbered', update_apply, update_apply]
    split
    · exact type
    · exact made.types i numbered'
  case sizes =>
    intro i numbered'
    rw [inode i numbered', update_apply, update_apply]
    split
    · exact size
    · exact made.sizes i numbered'
  case laid =>
    have others (i : Nat) (numbered' : i < table.ninodes) (other : i ≠ inum) :
        u.dinode i = update s.dinode inum d i := by
      rw [update_of_ne other, same i numbered']
    have after := laid.store numbered others
    rw [update_self] at after
    rw [stored]
    exact after

/-- `ialloc` makes an empty file. -/
theorem ialloc_spec (made : Made s files) (numbered : s.freeinode < table.ninodes) :
    Wp stops (ialloc type) (fun inum t => inum = s.freeinode ∧ t.freeinode = s.freeinode + 1 ∧
      t.freeblock = s.freeblock ∧ Made t (update files s.freeinode ⟨type, []⟩)) s := by
  have none := made.fresh s.freeinode (Nat.le_refl _)
  have bytes : (fun i => (update files s.freeinode ⟨type, []⟩ i).bytes) =
      fun i => (files i).bytes := by
    funext i
    rw [update_apply]
    split
    · rename_i here
      rw [here, none]
      rfl
    · rfl
  have bare : (s.dinode s.freeinode).Bare := .inl (by rw [made.types _ numbered, none]; rfl)
  unfold ialloc
  apply Wp.bind Wp.modifyGet
  rintro _ _ ⟨rfl, rfl⟩
  refine Wp.bind (winode_spec (by exact made.sectors) numbered (newInode type)) ?_
  rintro _ t stored
  refine Wp.pure ⟨rfl, by rw [stored]; rfl, by rw [stored]; rfl, ?_⟩
  refine made.store (newInode type) (.refl s) made.start numbered rfl rfl ?_
    (by rw [stored]; rfl) ?_
  · intro i later
    rw [stored] at later
    have other : i ≠ s.freeinode := Nat.ne_of_gt later
    rw [update_of_ne other]
    exact made.fresh i (Nat.le_of_succ_le later)
  · have blocks := congrArg (fun content : Nat → List UInt8 => fun i =>
      dataBlocks (content i).length)
      bytes
    rw [bytes, blocks]
    have after : (newInode type).Bare := .inr ⟨fun _ => rfl, rfl⟩
    have refers (r : Nat × Place) (c : Nat) :
        ((s.volume s.dinode).setNode s.freeinode (newInode type)).Refers table r c ↔
          (s.volume s.dinode).Refers table r c :=
      Volume.refers_setBare bare after r c
    exact made.laid.congr refers rfl fun _ _ => rfl

/-- A function of the files, with one file changed. -/
theorem apply_update {α : Type} (f : Stored → α) (files : Nat → Stored) (inum : Nat)
    (file : Stored) : (fun i => f (update files inum file i)) =
      update (fun i => f (files i)) inum (f file) := by
  funext i
  rw [update_apply, update_apply]
  split <;> rfl

/-- `iappend` appends to a file, if there is room for the bytes in the file and in the image. -/
theorem iappend_spec (made : Made s files) (numbered : inum < table.ninodes)
    (here : files inum = ⟨type, bytes⟩) (typed : type ≠ 0) (top : s.freeblock ≤ fsSize)
    (most : bytes.length ≤ maxFile * bSize) (p : List UInt8)
    (short : stops "fbn < MAXFILE" ∨ bytes.length + p.length ≤ maxFile * bSize)
    (fits : stops "read" ∨
      s.freeblock + fileBlocks (bytes.length + p.length) ≤ fsSize + fileBlocks bytes.length) :
    Wp stops (iappend inum p) (fun _ t => t.freeinode = s.freeinode ∧
      t.freeblock + fileBlocks bytes.length = s.freeblock + fileBlocks (bytes.length + p.length) ∧
      t.freeblock ≤ fsSize ∧ bytes.length + p.length ≤ maxFile * bSize ∧
      Made t (update files inum ⟨type, bytes ++ p⟩)) s := by
  obtain ⟨rfl, rfl⟩ : type = (files inum).type ∧ bytes = (files inum).bytes := by
    rw [here]
    exact ⟨rfl, rfl⟩
  have typed' : (s.dinode inum).type ≠ 0 := by
    rw [made.types inum numbered]
    exact typed
  unfold iappend
  apply rinode_spec made.sectors numbered
  rw [made.sizes inum numbered]
  apply Wp.bind (iappendFrom_spec made.laid made.sectors numbered typed' made.start rfl rfl top most
    p short fits)
  rintro ⟨din, off⟩ u ⟨rfl, short', top', appended⟩
  obtain ⟨d, sized⟩ : ∃ d, d =
      { din with size := UInt32.ofNat ((files inum).bytes.length + p.length) } := ⟨_, rfl⟩
  dsimp only
  rw [← sized]
  apply Wp.mono (winode_spec (appended.ext.sectors.trans made.sectors) numbered d)
  rintro _ t stored
  refine ⟨by rw [stored]; exact appended.ext.freeinode, by rw [stored]; exact appended.count,
    by rw [stored]; exact top', short', ?_⟩
  have later := appended.count
  have ahead := fileBlocks_mono (Nat.le_add_right (files inum).bytes.length p.length)
  have start : nmeta ≤ u.freeblock := Nat.le_trans made.start (by omega)
  have size : d.size.toNat = ((files inum).bytes ++ p).length := by
    rw [sized, List.length_append]
    exact UInt32.toNat_ofNat_of_lt' (Nat.lt_of_le_of_lt short' (by decide))
  have type : d.type = (s.dinode inum).type := by
    rw [sized]
    exact appended.type
  refine made.store d appended.ext start numbered (type.trans (made.types inum numbered)) size ?_
    (by rw [stored]) ?_
  · intro i free
    rw [stored] at free
    have none := made.fresh i (appended.ext.freeinode ▸ free)
    have other : i ≠ inum := by
      rintro rfl
      rw [none] at typed
      exact typed rfl
    rw [update_of_ne other, none]
  · have bytes := apply_update Stored.bytes files inum
      ⟨(files inum).type, (files inum).bytes ++ p⟩
    have blocks := apply_update (fun file => dataBlocks file.bytes.length) files inum
      ⟨(files inum).type, (files inum).bytes ++ p⟩
    rw [bytes, blocks, List.length_append]
    have resized := appended.laid.resize (d := d)
      (by rw [update_self, appended.type]; exact typed')
      (by rw [update_self, sized]) (by rw [update_self, sized])
    rwa [update_idem] at resized

/-! ## The files of the command line -/

/-- The pieces of a file are appended one after another. -/
theorem pieces_spec (pieces : List (List UInt8)) (made : Made s files)
    (numbered : inum < table.ninodes) (here : files inum = ⟨type, bytes⟩) (typed : type ≠ 0)
    (top : s.freeblock ≤ fsSize) (most : bytes.length ≤ maxFile * bSize)
    (short : stops "fbn < MAXFILE" ∨ bytes.length + pieces.flatten.length ≤ maxFile * bSize)
    (fits : stops "read" ∨ s.freeblock + fileBlocks (bytes.length + pieces.flatten.length) ≤
      fsSize + fileBlocks bytes.length) :
    Wp stops (pieces.forM (iappend inum)) (fun _ t => t.freeinode = s.freeinode ∧
      t.freeblock + fileBlocks bytes.length =
        s.freeblock + fileBlocks (bytes.length + pieces.flatten.length) ∧
      t.freeblock ≤ fsSize ∧ Made t (update files inum ⟨type, bytes ++ pieces.flatten⟩)) s := by
  induction pieces generalizing s files bytes with
  | nil =>
    refine Wp.pure ⟨rfl, rfl, top, ?_⟩
    rw [List.flatten_nil, List.append_nil, ← here, update_eq_self]
    exact made
  | cons piece rest ih =>
    rw [List.flatten_cons, List.length_append, ← Nat.add_assoc] at short fits
    have ahead := fileBlocks_mono
      (Nat.le_add_right (bytes.length + piece.length) rest.flatten.length)
    apply Wp.bind (iappend_spec made numbered here typed top most piece
      (short.imp_right fun short => by omega) (fits.imp_right fun fits => by omega))
    rintro _ t ⟨inodes, blocks, top', most', made'⟩
    have next := ih made' (update_self ..) top'
      (by rw [List.length_append]; exact most') (by rw [List.length_append]; exact short)
      (by rw [List.length_append]; exact fits.imp_right fun fits => by omega)
    rw [update_idem, List.length_append] at next
    apply Wp.mono next
    rintro _ u ⟨inodes', blocks', top'', made''⟩
    rw [List.flatten_cons, List.length_append, ← Nat.add_assoc]
    refine ⟨inodes'.trans inodes, by omega, top'', ?_⟩
    rwa [List.append_assoc] at made''

/-- The entries of the root directory. -/
def rootEntries (files : List HostFile) : List Dirent :=
  dirent rootIno [ascii '.'] :: dirent rootIno [ascii '.', ascii '.'] ::
    files.mapIdx fun k file => dirent (2 + k) (skipUnderscore file.name)

/-- What the image holds. -/
def layout (files : List HostFile) : Nat → Stored
  | 0 => .none
  | 1 => ⟨tDir, dirBytes (rootEntries files)⟩
  | k + 2 => files[k]?.elim .none fun file => ⟨tFile, file.bytes⟩

/-- The blocks of an image with some files. -/
def imageBlocks (files : List HostFile) : Nat :=
  nmeta + fileBlocks (direntSize * (2 + files.length)) +
    (files.map fun file => fileBlocks file.bytes.length).sum

/-- The size of the root directory. -/
theorem length_rootEntries (files : List HostFile) :
    (dirBytes (rootEntries files)).length = direntSize * (2 + files.length) := by
  rw [length_dirBytes, rootEntries, List.length_cons, List.length_cons, List.length_mapIdx]
  congr 1
  omega

/-- The image with one file more. -/
theorem layout_append (done : List HostFile) (file : HostFile) :
    layout (done ++ [file]) =
      update (update (layout done) rootIno ⟨tDir, dirBytes (rootEntries done) ++
        (dirent (2 + done.length) (skipUnderscore file.name)).toBytes⟩) (2 + done.length)
          ⟨tFile, file.bytes⟩ := by
  unfold rootIno
  funext i
  rcases i with _ | _ | k
  · rw [update_of_ne (by omega), update_of_ne (by omega)]
    rfl
  · rw [update_of_ne (by omega), update_self]
    show Stored.mk tDir (dirBytes (rootEntries (done ++ [file]))) = _
    rw [rootEntries, rootEntries, List.mapIdx_append]
    simp [dirBytes]
  · by_cases here : k = done.length
    · rw [here, Nat.add_comm 2, update_self, layout, List.getElem?_concat_length]
      rfl
    · rw [update_of_ne (by omega), update_of_ne (by omega), layout, layout]
      by_cases before : k < done.length
      · rw [List.getElem?_append_left before]
      · rw [List.getElem?_append_right (by omega), List.getElem?_eq_none (by simp; omega),
          List.getElem?_eq_none (by omega)]

/-- The blocks of an image with one file more. -/
theorem imageBlocks_append (done : List HostFile) (file : HostFile) :
    imageBlocks (done ++ [file]) + fileBlocks (direntSize * (2 + done.length)) =
      imageBlocks done + fileBlocks (direntSize * (2 + done.length) + direntSize) +
        fileBlocks file.bytes.length := by
  simp only [imageBlocks, List.map_append, List.sum_append, List.map_cons, List.map_nil,
    List.sum_singleton, List.length_append, List.length_singleton, ← Nat.add_assoc, Nat.mul_succ]
  omega

/-- More files take more blocks. -/
theorem imageBlocks_mono (done rest : List HostFile) :
    imageBlocks done ≤ imageBlocks (done ++ rest) := by
  have root := fileBlocks_mono
    (Nat.mul_le_mul_left direntSize (Nat.le_add_right (2 + done.length) rest.length))
  simp only [imageBlocks, List.map_append, List.sum_append, List.length_append, ← Nat.add_assoc]
  omega

/-- The assertion on the names. -/
def slashMessage : String := "index(argv[i], '/') == 0"

/-- `main` adds a file. -/
theorem addFile_spec (file : HostFile) (made : Made s (layout done))
    (inodes : s.freeinode = 2 + done.length) (blocks : s.freeblock = imageBlocks done)
    (top : s.freeblock ≤ fsSize) (numbered : 2 + done.length < table.ninodes)
    (short : stops "fbn < MAXFILE" ∨ file.bytes.length ≤ maxFile * bSize)
    (fits : stops "read" ∨ imageBlocks (done ++ [file]) ≤ fsSize)
    (stop : ascii '/' ∈ file.name → stops slashMessage) :
    Wp stops (addFile rootIno file) (fun _ t => ascii '/' ∉ file.name ∧
      t.freeinode = 2 + (done ++ [file]).length ∧ t.freeblock = imageBlocks (done ++ [file]) ∧
        t.freeblock ≤ fsSize ∧ Made t (layout (done ++ [file]))) s := by
  have root := length_rootEntries done
  have bound : done.length < 206 := by
    have numbered' : 2 + done.length < 208 := numbered
    omega
  have count := imageBlocks_append done file
  unfold addFile
  apply Wp.ite
  · exact fun slash => Wp.throw_bind (stop slash)
  intro plain
  apply Wp.bind (ialloc_spec made (by rw [inodes]; exact numbered))
  rintro _ t ⟨rfl, inodes₁, blocks₁, made₁⟩
  rw [inodes] at made₁ ⊢
  obtain ⟨de, named⟩ : ∃ de, de = dirent (2 + done.length) (skipUnderscore file.name) := ⟨_, rfl⟩
  have here : update (layout done) (2 + done.length) ⟨tFile, []⟩ rootIno =
      ⟨tDir, dirBytes (rootEntries done)⟩ :=
    update_of_ne (by simp only [rootIno]; omega) _ _
  have short' : direntSize * (2 + done.length) + direntSize ≤ maxFile * bSize := by
    show 16 * (2 + done.length) + 16 ≤ 140 * 512
    omega
  have linked : Wp stops _ _ t := iappend_spec made₁ (by decide) here (by decide)
    (by rw [blocks₁]; exact top) (by rw [root]; omega) de.toBytes
    (by rw [root, de.length_toBytes]; exact .inr short')
    (by rw [root, de.length_toBytes]; exact fits.imp_right fun fits => by omega)
  rw [root, de.length_toBytes] at linked
  rw [← named]
  apply Wp.bind linked
  rintro _ u ⟨inodes₂, blocks₂, top₂, -, made₂⟩
  have empty : update (update (layout done) (2 + done.length) ⟨tFile, []⟩) rootIno
      ⟨tDir, dirBytes (rootEntries done) ++ de.toBytes⟩ (2 + done.length) = ⟨tFile, []⟩ := by
    rw [update_of_ne (by simp only [rootIno]; omega), update_self]
  have none : fileBlocks 0 = 0 := rfl
  have filled : Wp stops _ _ u := pieces_spec file.reads made₂ numbered empty (by decide) top₂
    (Nat.zero_le _) (by rw [List.length_nil, Nat.zero_add]; exact short)
    (by
      rw [List.length_nil, Nat.zero_add]
      refine fits.imp_right fun fits => ?_
      show _ + fileBlocks file.bytes.length ≤ _
      omega)
  rw [List.length_nil, Nat.zero_add, List.nil_append] at filled
  apply Wp.mono filled
  rintro _ v ⟨inodes₃, blocks₃, top₃, made₃⟩
  change _ = _ + fileBlocks file.bytes.length at blocks₃
  refine ⟨plain, ?_, by omega, top₃, ?_⟩
  · rw [inodes₃, inodes₂, inodes₁, inodes, List.length_append, List.length_singleton]
    omega
  · have apart : rootIno ≠ 2 + done.length := by
      simp only [rootIno]
      omega
    rw [update_comm apart, update_idem] at made₃
    rw [layout_append, ← named, update_comm apart]
    exact made₃

/-- The files are added one after another. -/
theorem files_spec (rest : List HostFile) (made : Made s (layout done))
    (inodes : s.freeinode = 2 + done.length) (blocks : s.freeblock = imageBlocks done)
    (top : s.freeblock ≤ fsSize) (numbered : 2 + (done ++ rest).length ≤ table.ninodes)
    (short : ∀ file ∈ rest, stops "fbn < MAXFILE" ∨ file.bytes.length ≤ maxFile * bSize)
    (fits : stops "read" ∨ imageBlocks (done ++ rest) ≤ fsSize)
    (stop : ∀ file ∈ rest, ascii '/' ∈ file.name → stops slashMessage) :
    Wp stops (rest.forM (addFile rootIno)) (fun _ t => (∀ file ∈ rest, ascii '/' ∉ file.name) ∧
      t.freeinode = 2 + (done ++ rest).length ∧ t.freeblock = imageBlocks (done ++ rest) ∧
      t.freeblock ≤ fsSize ∧ Made t (layout (done ++ rest))) s := by
  induction rest generalizing s done with
  | nil =>
    rw [List.append_nil]
    exact Wp.pure ⟨fun _ member => absurd member List.not_mem_nil, inodes, blocks, top, made⟩
  | cons file rest ih =>
    rw [List.append_cons] at numbered fits ⊢
    have mine := List.mem_cons_self (a := file) (l := rest)
    have more := imageBlocks_mono (done ++ [file]) rest
    have inside : 2 + done.length < table.ninodes := by
      simp only [List.length_append, List.length_singleton] at numbered
      omega
    apply Wp.bind (addFile_spec file made inodes blocks top inside (short file mine)
      (fits.imp_right fun fits => by omega) (stop file mine))
    rintro _ t ⟨plain, inodes', blocks', top', made'⟩
    apply Wp.mono (ih made' inodes' blocks' top' numbered
      (fun other member => short other (List.mem_cons_of_mem _ member)) fits
      fun other member => stop other (List.mem_cons_of_mem _ member))
    rintro _ u ⟨others, made''⟩
    exact ⟨List.forall_mem_cons.mpr ⟨plain, others⟩, made''⟩

/-! ## The whole program -/

/-- The image is zeroed. -/
theorem zero_spec (n : Nat) (blank : s.disk = fun _ => Bytes.zero) (none : s.sectors = 0) :
    Wp stops ((List.range n).forM fun i => wsect i Bytes.zero)
      (fun _ t => t = { s with sectors := n }) s := by
  induction n with
  | zero =>
    apply Wp.pure
    rw [← none]
  | succ n ih =>
    rw [List.range_succ, List.forM_eq_forM, List.forM_append, ← List.forM_eq_forM]
    apply Wp.bind ih
    rintro _ _ rfl
    apply Wp.bind Wp.modify
    rintro _ _ rfl
    apply Wp.pure
    have same : update s.disk n Bytes.zero = s.disk := by
      rw [blank]
      exact update_eq_self ..
    simp only [same, Nat.max_eq_right (Nat.le_succ n)]

/-- The image before any inode is allocated. -/
def blankImage : State where
  sectors := fsSize
  disk := update (fun _ => Bytes.zero) 1 (putSuperblock Bytes.zero sb)
  freeinode := 1
  freeblock := nmeta

/-- All other blocks are zero. -/
theorem blankImage_disk (other : b ≠ 1) : blankImage.disk b = Bytes.zero := by
  show update (fun _ => Bytes.zero) 1 (putSuperblock Bytes.zero sb) b = Bytes.zero
  rw [update_of_ne other]

/-- The super block is read as it was stored. -/
theorem getSuperblock_put : getSuperblock (putSuperblock Bytes.zero sb) = sb := by
  decide +kernel

/-- There are no files on the blank image. -/
theorem blankImage_made : Made blankImage fun _ => .none := by
  have inode (i : Nat) (numbered : i < table.ninodes) : blankImage.dinode i = Dinode.zero := by
    have place := (iblock_lt numbered).1
    rw [State.dinode, blankImage_disk (show sb.iblock i ≠ 1 by omega)]
    simp only [getDinode, Bytes.half_zero, Bytes.word_zero]
    rfl
  have none (r : Nat × Place) (b : Nat) :
      ¬(blankImage.volume blankImage.dinode).Refers table r b := by
    rintro ⟨numbered, typed, -⟩
    change (blankImage.dinode r.1).type ≠ 0 at typed
    rw [inode r.1 numbered] at typed
    exact typed rfl
  constructor
  case sectors => rfl
  case super => exact getSuperblock_put
  case start => exact Nat.le_refl _
  case fresh => exact fun _ _ => rfl
  case types =>
    intro i numbered
    rw [inode i numbered]
    rfl
  case sizes =>
    intro i numbered
    rw [inode i numbered]
    rfl
  case laid =>
    constructor
    case accounted =>
      constructor
      case marked_iff =>
        intro b
        simp only [none, exists_false, or_false]
        show b < fsSize ∧ decide (b < nmeta) = true ↔ b < nmeta
        rw [decide_eq_true_iff]
        exact and_iff_right_of_imp fun before => before.trans (by decide)
      case apart => exact fun r b refers => absurd refers (none r b)
      case once => exact fun r _ b refers => absurd refers (none r b)
    case bytes => exact fun i k c byte => by cases byte
    case blocks => exact fun i _ place b _ refers => absurd refers (none (i, place) b)
    case indirect => exact fun i b refers => absurd refers (none (i, .indirect) b)
    case blank =>
      intro b _ unset
      have other : b ≠ 1 := by
        rintro rfl
        cases unset
      exact blankImage_disk other

/-- The image holds the root directory and nothing else. -/
theorem layout_nil : layout [] = update (fun _ => Stored.none) rootIno
    ⟨tDir, (dirent rootIno [ascii '.']).toBytes ++
      (dirent rootIno [ascii '.', ascii '.']).toBytes⟩ := by
  funext i
  rcases i with _ | _ | k
  · rfl
  · rfl
  · rw [update_of_ne (by simp only [rootIno]; omega)]
    rfl

/-- The inode of the root directory after its size is fixed. -/
def fixedRoot (din : Dinode) : Dinode :=
  { din with size := UInt32.ofNat ((din.size.toNat / bSize + 1) * bSize) }

/-- The bitmap with the first blocks marked. -/
def bitmap (used : Nat) : Block := (List.range used).foldl Bytes.setBit Bytes.zero

/-- The image when it is finished: the size of the root directory is fixed, and the bitmap is
written. -/
def State.finish (s : State) : State where
  sectors := s.sectors
  disk := update (s.setDinode rootIno (fixedRoot (s.dinode rootIno))).disk sb.bmapstart
    (bitmap s.freeblock)
  freeinode := s.freeinode
  freeblock := s.freeblock

/-- `balloc` writes the bitmap. -/
theorem balloc_spec {used : Nat} (fits : used < bSize * 8) (inside : sb.bmapstart < s.sectors) :
    Wp stops (balloc used)
      (fun _ t => t = { s with disk := update s.disk sb.bmapstart (bitmap used) }) s := by
  unfold balloc
  rw [if_neg (not_not_intro fits)]
  exact wsect_spec inside

/-- The root directory gets its first two entries. -/
theorem root_spec {rest : MkfsM β} (made : Made s (update (fun _ => .none) rootIno ⟨tDir, []⟩))
    (inodes : s.freeinode = 2) (blocks : s.freeblock = nmeta)
    (after : ∀ t, t.freeinode = 2 → t.freeblock = imageBlocks [] → Made t (layout []) →
      Wp stops rest post t) :
    Wp stops (do
      iappend rootIno (dirent rootIno [ascii '.']).toBytes
      iappend rootIno (dirent rootIno [ascii '.', ascii '.']).toBytes
      rest) post s := by
  obtain ⟨dot, isDot⟩ : ∃ de, de = dirent rootIno [ascii '.'] := ⟨_, rfl⟩
  obtain ⟨dots, isDots⟩ : ∃ de, de = dirent rootIno [ascii '.', ascii '.'] := ⟨_, rfl⟩
  rw [← isDot, ← isDots]
  have first : Wp stops _ _ s := iappend_spec made (by decide) (update_self ..) (by decide)
    (by rw [blocks]; decide) (by decide) dot.toBytes (.inr (by rw [dot.length_toBytes]; decide))
    (.inr (by rw [dot.length_toBytes, blocks]; decide))
  apply Wp.bind first
  rintro _ t ⟨inodes', count, top', -, made'⟩
  rw [dot.length_toBytes, blocks] at count
  have blocks' : t.freeblock = 60 := count
  have second : Wp stops _ _ t := iappend_spec made' (by decide) (update_self ..) (by decide)
    top' (by rw [List.length_append, dot.length_toBytes]; decide) dots.toBytes
    (.inr (by rw [List.length_append, dot.length_toBytes, dots.length_toBytes]; decide))
    (.inr (by rw [List.length_append, dot.length_toBytes, dots.length_toBytes, blocks']; decide))
  apply Wp.bind second
  rintro _ u ⟨inodes'', count', -, -, made''⟩
  rw [List.length_append, dot.length_toBytes, dots.length_toBytes, blocks'] at count'
  rw [update_idem, update_idem, List.nil_append] at made''
  refine after u (inodes''.trans (inodes'.trans inodes))
    (Nat.add_right_cancel (count'.trans (by decide))) ?_
  rw [layout_nil, ← isDot, ← isDots]
  exact made''

/-- `main` makes an image with the files, fixes the size of the root directory and writes the
bitmap. -/
theorem main_spec (files : List HostFile) (numbered : files.length + 1 ≤ nInodes)
    (short : ∀ file ∈ files, stops "fbn < MAXFILE" ∨ file.bytes.length ≤ maxFile * bSize)
    (fits : stops "read" ∨ imageBlocks files ≤ fsSize)
    (stop : ∀ file ∈ files, ascii '/' ∈ file.name → stops slashMessage) :
    Wp stops (main files) (fun _ t => (∀ file ∈ files, ascii '/' ∉ file.name) ∧
      ∃ s, s.freeinode = 2 + files.length ∧ s.freeblock = imageBlocks files ∧
        s.freeblock ≤ fsSize ∧ Made s (layout files) ∧ t = s.finish) start := by
  unfold main
  apply Wp.bind Wp.modify
  rintro _ _ rfl
  apply Wp.bind (zero_spec fsSize rfl rfl)
  rintro _ _ rfl
  apply Wp.bind (wsect_spec (by decide))
  rintro _ _ rfl
  have root : Wp stops (ialloc tDir) _ blankImage := ialloc_spec blankImage_made (by decide)
  apply Wp.bind root
  rintro _ s₁ ⟨rfl, inodes₁, blocks₁, made₁⟩
  rw [if_neg (by decide)]
  refine root_spec made₁ inodes₁ blocks₁ fun s₂ inodes₂ blocks₂ made₂ => ?_
  have room : 2 + ([] ++ files).length ≤ table.ninodes := by
    have numbered' : files.length + 1 ≤ 200 := numbered
    show 2 + files.length ≤ 208
    omega
  apply Wp.bind (files_spec files made₂ inodes₂ blocks₂ (by rw [blocks₂]; decide) room
    short fits stop)
  rintro _ s ⟨plain, inodes, blocks, top, made⟩
  rw [List.nil_append] at inodes blocks made
  apply rinode_spec made.sectors (by decide)
  apply Wp.bind (winode_spec made.sectors (by decide) (fixedRoot (s.dinode rootIno)))
  rintro _ _ rfl
  apply Wp.get
  have used : s.freeblock < bSize * 8 := Nat.lt_of_le_of_lt top (by decide)
  have inside : sb.bmapstart < s.sectors := by
    rw [made.sectors]
    decide
  refine Wp.mono (balloc_spec (by exact used) (by exact inside)) ?_
  rintro _ _ rfl
  exact ⟨plain, s, inodes, blocks, top, made, rfl⟩

end Xv6.Mkfs
