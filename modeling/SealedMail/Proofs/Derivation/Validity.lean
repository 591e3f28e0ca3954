import SealedMail.Proofs.Curve.Agreement
import SealedMail.Proofs.Curve.FreshKey
import SealedMail.Proofs.Curve.Recovery
import SealedMail.Proofs.Curve.Spellings
import SealedMail.Proofs.Curve.Tweaks
import SealedMail.Proofs.Derivation.Lineage

/-!
# Keys stay valid

A private key is valid if its scalar is a number between zero and the group order, a public key if
it is a point of the curve other than the identity, and an extended key if its key is valid and it
stands at most 255 steps below the root, each with an index below `2³¹` (`Key.IsValid`). A run
starts without keys, and each of its operations makes one from keys that are held (`Key.Run`). What
an operation makes from valid keys is valid (`Key.Makes.isValid`): sums can be zero or the identity
and are checked (`Point.IsProper.add_multiple`), and proper multiples cannot, because the order of
the group is prime (`Point.IsProper.multiple`). Hence the keys of a run are valid
(`Key.Run.isValid`). Main statement: `keys_stay_valid`.
-/

namespace SealedMail

open Curve
open scoped Arithmetic

/-! ## Valid numbers, points and places -/

namespace Curve

namespace Point

/-- A point of the curve other than the identity. -/
def IsProper (p : Point) : Prop := ∃ x y, p = .affine x y ∧ IsPoint x.val y.val

theorem isProper_ofGroup_iff {P : CurveGroup} : (ofGroup P).IsProper ↔ P ≠ 0 := by
  constructor
  · rintro ⟨x, y, h, -⟩ rfl
    cases h
  · intro h
    obtain ⟨key, rfl⟩ := PublicKey.exists_toGroup_eq h
    exact ⟨key.x, key.y, rfl, isPoint_iff_exists_key.2 ⟨key, rfl, rfl⟩⟩

theorem isProper_point (key : PublicKey) : key.point.IsProper :=
  isProper_ofGroup_iff.2 key.toGroup_ne_zero

theorem IsProper.exists_ofGroup {p : Point} (h : p.IsProper) : ∃ P, ofGroup P = p := by
  obtain ⟨x, y, rfl, point⟩ := h
  obtain ⟨key, hx, hy⟩ := isPoint_iff_exists_key.1 point
  obtain rfl : key.x = x := Fin.ext hx
  obtain rfl : key.y = y := Fin.ext hy
  exact ⟨key.toGroup, rfl⟩

/-- The group has prime order, so a scalar other than zero does not lead to the identity. -/
theorem IsProper.multiple {p : Point} (h : p.IsProper) {factor : Scalar}
    (hfactor : IsScalar factor.val) : (p.multiple factor).IsProper := by
  obtain ⟨P, rfl⟩ := h.exists_ofGroup
  rw [multiple_eq_smul, isProper_ofGroup_iff]
  exact smul_ne_zero (isScalar_val_iff.1 hfactor) (isProper_ofGroup_iff.1 h)

/-- A sum with a multiple of the generator is the identity or a point other than it. -/
theorem IsProper.add_multiple {p : Point} (h : p.IsProper) (factor : Scalar)
    (hsum : (generator.multiple factor).add p ≠ .identity) :
    ((generator.multiple factor).add p).IsProper := by
  obtain ⟨P, rfl⟩ := h.exists_ofGroup
  rw [← ofGroup_base, multiple_eq_smul, ← ofGroup_add] at hsum ⊢
  exact isProper_ofGroup_iff.2 (mt ofGroup_eq_identity.2 hsum)

theorem isProper_generator : generator.IsProper := by
  rw [← ofGroup_base, isProper_ofGroup_iff]
  exact base_ne_zero

end Point

end Curve

/-- A place at most 255 steps below the root, with room for the hardened bit in each index. -/
def Path.IsPlace (path : Path) : Prop :=
  path.depth ≤ 255 ∧ ∀ step ∈ path.segments, step.index < 2 ^ 31

theorem Path.isPlace_root : root.IsPlace := ⟨Nat.zero_le _, nofun⟩

/-- The depth is checked before a step is added. -/
theorem Path.IsPlace.child {path longer : Path} {step : Segment} (h : path.IsPlace)
    (hchild : path.child step = .ok longer) : longer.IsPlace := by
  have room := exists_child_iff.1 ⟨longer, hchild⟩
  have segments := segments_of_child hchild
  constructor
  · rw [depth, segments, List.length_append, List.length_singleton]
    exact room
  · rw [segments]
    exact List.forall_mem_append.2 ⟨h.2, List.forall_mem_singleton.2 step.index_lt⟩

theorem Path.isPlace (path : Path) : path.IsPlace :=
  ⟨path.depth_le, fun step _ => step.index_lt⟩

/-- The key of a root is read from the hash of its seed. -/
theorem ExtendedPrivateKey.of_ofSeed {seed : Bytes} {key : ExtendedPrivateKey}
    (h : ofSeed seed = .ok key) :
    PrivateKey.ofOctets? (Split.ofHash rootDomain seed).tweak = some key.key ∧
      key.path = Path.root := by
  unfold ofSeed at h
  split at h
  · dsimp only at h
    split at h <;> cases h
    exact ⟨‹_›, rfl⟩
  · cases h

/-! ## Runs of key operations -/

/-- A key of any kind. -/
inductive Key where
  | ofPrivate (key : PrivateKey)
  | ofPublic (key : PublicKey)
  | ofExtendedPrivate (key : ExtendedPrivateKey)
  | ofExtendedPublic (key : ExtendedPublicKey)

namespace Key

/-- The scalar is in range, or the point is a point of the curve other than the identity, and an
extended key has a place. -/
def IsValid : Key → Prop
  | ofPrivate key => IsScalar key.scalar.value.val
  | ofPublic key => key.point.IsProper
  | ofExtendedPrivate key => IsScalar key.key.scalar.value.val ∧ key.path.IsPlace
  | ofExtendedPublic key => key.key.point.IsProper ∧ key.path.IsPlace

/-- One operation makes a key, from keys that are held if it needs any. An operation that fails
makes none. -/
inductive Makes (held : List Key) : Key → Prop
  | read {data key} (h : PrivateKey.ofBytes data = .ok key) : Makes held (ofPrivate key)
  | draw (source : RandomSource) (offers : source.OffersScalar) :
      Makes held (ofPrivate (PrivateKey.generate source offers).1)
  | offset {key sum} {tweak : Octets 32} (hkey : ofPrivate key ∈ held)
      (h : key.offsetBy tweak = .ok sum) : Makes held (ofPrivate sum)
  | readPublic {data key} (h : PublicKey.ofBytes data = .ok key) : Makes held (ofPublic key)
  | offsetPublic {half sum} {tweak : Octets 32} (hhalf : ofPublic half ∈ held)
      (h : half.offsetBy tweak = .ok sum) : Makes held (ofPublic sum)
  | half {key} (hkey : ofPrivate key ∈ held) : Makes held (ofPublic key.publicKey)
  | recover {signature digest key} (h : Signature.recover signature digest = .ok key) :
      Makes held (ofPublic key)
  | seed {seed key} (h : ExtendedPrivateKey.ofSeed seed = .ok key) :
      Makes held (ofExtendedPrivate key)
  | assemble {key} (chainCode : Octets 32) (path : Path) (hkey : ofPrivate key ∈ held) :
      Makes held (ofExtendedPrivate ⟨key, chainCode, path⟩)
  | bare {key : ExtendedPrivateKey} (hkey : ofExtendedPrivate key ∈ held) :
      Makes held (ofPrivate key.key)
  | child {parent key step} (hparent : ofExtendedPrivate parent ∈ held)
      (h : parent.child step = .ok key) : Makes held (ofExtendedPrivate key)
  | descend {start key target} (hstart : ofExtendedPrivate start ∈ held)
      (h : (start.descend target).result = .ok key) : Makes held (ofExtendedPrivate key)
  | toPublic {key : ExtendedPrivateKey} (hkey : ofExtendedPrivate key ∈ held) :
      Makes held (ofExtendedPublic key.toPublic)
  | assemblePublic {half} (chainCode : Octets 32) (path : Path) (hhalf : ofPublic half ∈ held) :
      Makes held (ofExtendedPublic ⟨half, chainCode, path⟩)
  | barePublic {half : ExtendedPublicKey} (hhalf : ofExtendedPublic half ∈ held) :
      Makes held (ofPublic half.key)
  | childPublic {parent key step} (hparent : ofExtendedPublic parent ∈ held)
      (h : parent.child step = .ok key) : Makes held (ofExtendedPublic key)
  | descendPublic {start key target} (hstart : ofExtendedPublic start ∈ held)
      (h : start.descend target = .ok key) : Makes held (ofExtendedPublic key)

/-- A run of operations starts without keys, and holds each key that an operation makes. -/
inductive Run : List Key → Prop
  | start : Run []
  | next {held key} (run : Run held) (made : Makes held key) : Run (key :: held)

/-! ## What one operation keeps -/

theorem isScalar_of_ofBytes {data : Bytes} {key : PrivateKey}
    (h : PrivateKey.ofBytes data = .ok key) : IsScalar key.scalar.value.val := by
  rw [(PrivateKey.ofBytes_eq_ok_iff.1 h).2]
  exact (PrivateKey.exists_ofBytes_iff.1 ⟨key, h⟩).2

theorem isScalar_of_offsetBy {key sum : PrivateKey} {tweak : Octets 32}
    (h : key.offsetBy tweak = .ok sum) : IsScalar sum.scalar.value.val := by
  obtain ⟨-, ne_zero⟩ := PrivateKey.exists_offsetBy_iff.1 ⟨sum, h⟩
  rw [(PrivateKey.offsetBy_eq_ok_iff.1 h).2]
  exact ⟨Nat.pos_of_ne_zero ne_zero, Nat.mod_lt _ (by decide)⟩

theorem isProper_of_offsetBy {half sum : PublicKey} {tweak : Octets 32}
    (hhalf : half.point.IsProper) (h : half.offsetBy tweak = .ok sum) : sum.point.IsProper := by
  obtain ⟨factor, -, hsum⟩ := PublicKey.offsetBy_eq_ok_iff.1 h
  -- The identity has no coordinates, so it is not the sum for which a key was made.
  have ne_identity := sum.point_ne_identity
  rw [hsum] at ne_identity ⊢
  exact hhalf.add_multiple factor ne_identity

theorem isProper_publicKey {key : PrivateKey} (h : IsScalar key.scalar.value.val) :
    key.publicKey.point.IsProper := by
  rw [key.point_publicKey]
  exact Point.isProper_generator.multiple h

theorem isProper_of_recover {signature : Bytes} {digest : Digest} {key : PublicKey}
    (h : Signature.recover signature digest = .ok key) : key.point.IsProper := by
  obtain ⟨point, factor, factor', hfactor, hsum⟩ := Signature.exists_sum_of_recover h
  have proper := (Point.isProper_point point).multiple (isScalar_val_iff.2 hfactor)
  have ne_identity := key.point_ne_identity
  rw [hsum] at ne_identity ⊢
  exact proper.add_multiple factor ne_identity

theorem isValid_child {parent key : ExtendedPrivateKey} {step : Segment}
    (hparent : (ofExtendedPrivate parent).IsValid) (h : parent.child step = .ok key) :
    (ofExtendedPrivate key).IsValid := by
  obtain ⟨⟨tweak, hkey⟩, hpath⟩ := ExtendedPrivateKey.of_child h
  exact ⟨isScalar_of_offsetBy hkey, hparent.2.child hpath⟩

theorem isValid_childPublic {parent key : ExtendedPublicKey} {step : Segment}
    (hparent : (ofExtendedPublic parent).IsValid) (h : parent.child step = .ok key) :
    (ofExtendedPublic key).IsValid := by
  obtain ⟨-, ⟨tweak, hkey⟩, hpath⟩ := ExtendedPublicKey.of_child h
  exact ⟨isProper_of_offsetBy hparent.1 hkey, hparent.2.child hpath⟩

/-- An operation on valid keys makes a valid key. -/
theorem Makes.isValid {held : List Key} {key : Key} (made : Makes held key)
    (valid : ∀ other ∈ held, other.IsValid) : key.IsValid := by
  -- What an operation computes is traced back to its operands, which are valid.
  cases made with
  | read h => exact isScalar_of_ofBytes h
  | draw source offers =>
      obtain ⟨index, hscalar, -, hkey, -⟩ := PrivateKey.exists_generate_eq offers
      rw [IsValid, hkey]
      exact hscalar
  | offset hkey h => exact isScalar_of_offsetBy h
  | readPublic h => exact Point.isProper_point _
  | offsetPublic hhalf h => exact isProper_of_offsetBy (valid _ hhalf) h
  | half hkey => exact isProper_publicKey (valid _ hkey)
  | recover h => exact isProper_of_recover h
  | seed h =>
      obtain ⟨hkey, hpath⟩ := ExtendedPrivateKey.of_ofSeed h
      refine ⟨?_, hpath ▸ Path.isPlace_root⟩
      rw [PrivateKey.ofOctets?_eq_some_iff.1 hkey]
      exact PrivateKey.exists_ofOctets?_iff.1 ⟨_, hkey⟩
  | assemble chainCode path hkey =>
      -- Any path is a place: the depth and the indices are checked where paths are made.
      exact ⟨valid _ hkey, path.isPlace⟩
  | bare hkey => exact (valid _ hkey).1
  | child hparent h => exact isValid_child (valid _ hparent) h
  | descend hstart h =>
      exact ExtendedPrivateKey.lineage.of_descend isValid_child (valid _ hstart) h
  | toPublic hkey =>
      obtain ⟨hscalar, hplace⟩ := valid _ hkey
      exact ⟨isProper_publicKey hscalar, hplace⟩
  | assemblePublic chainCode path hhalf => exact ⟨valid _ hhalf, path.isPlace⟩
  | barePublic hhalf => exact (valid _ hhalf).1
  | childPublic hparent h => exact isValid_childPublic (valid _ hparent) h
  | descendPublic hstart h =>
      exact ExtendedPublicKey.lineage.of_descend isValid_childPublic (valid _ hstart) h

/-- The keys of a run are valid. -/
theorem Run.isValid {held : List Key} (run : Run held) : ∀ key ∈ held, key.IsValid := by
  -- Keys that are held stay held, so only the key that is made has to be looked at.
  induction run with
  | start => exact nofun
  | next run made ih => exact List.forall_mem_cons.2 ⟨made.isValid ih, ih⟩

end Key

/-! ## What valid keys are good for -/

/-- A descent without steps gives out the key, whose scalar is read again. -/
theorem ExtendedPrivateKey.descend_of_suffixIn {key : ExtendedPrivateKey} {target : Path}
    (h : key.path.suffixIn target = some []) :
    key.descend target = ⟨[.derived target.depth 0], .ok key⟩ := by
  rw [descend, h]
  simp only [copy_eq, ite_self]
  rfl

theorem ExtendedPublicKey.descend_of_suffixIn {half : ExtendedPublicKey} {target : Path}
    (h : half.path.suffixIn target = some []) : half.descend target = .ok half := by
  rw [descend, h]
  rfl

theorem SharedSecret.exists_coordinates (key : PrivateKey) (peer : PublicKey) :
    ∃ x y, peer.point.multiple key.scalar.value = .affine x y ∧ IsPoint x.val y.val ∧
      (derive key peer).padded = x.bytes := by
  obtain ⟨shared, hpoint, hpadded⟩ := padded_derive key peer
  exact ⟨shared.x, shared.y, hpoint, isPoint_iff_exists_key.2 ⟨shared, rfl, rfl⟩, hpadded⟩

/-- Keys stay valid. Over any run of key operations, every private key has a scalar between zero and
the group order, every public key is a point of the curve other than the identity, and every
extended key stands at most 255 steps below the root, each with an index below `2³¹`. The operations
compute in the integers modulo the order and in the group: a private key is read from the 32 bytes
of its scalar, a tweak below the order is added to it modulo the order and to a public key as a
multiple of the generator, unless the sum is not valid, and the public half is the multiple of the
generator by the scalar. Steps are made for the indices below `2³¹` and added to the places less
than 255 steps deep. Hence a private key is read back from its bytes, a descent without steps gives
out the key itself, with its chain code and place, and the shared point of a key agreement is a
point of the curve, of which the padded secret is the first coordinate. -/
theorem keys_stay_valid :
    (∀ held, Key.Run held → ∀ key ∈ held, key.IsValid) ∧
    (∀ data (key : PrivateKey), PrivateKey.ofBytes data = .ok key ↔
      data.length = 32 ∧ key.scalar.value.val = Bytes.value data) ∧
    (∀ (key sum : PrivateKey) tweak, key.offsetBy tweak = .ok sum ↔
      Bytes.value tweak.bytes < groupOrder ∧
      sum.scalar.value.val = (key.scalar.value.val + Bytes.value tweak.bytes) % groupOrder) ∧
    (∀ (half sum : PublicKey) tweak, half.offsetBy tweak = .ok sum ↔
      ∃ factor : Scalar, factor.val = Bytes.value tweak.bytes ∧
        sum.point = (Point.generator.multiple factor).add half.point) ∧
    (∀ key : PrivateKey, key.publicKey.point = Point.generator.multiple key.scalar.value) ∧
    (∀ index hardened, (∃ step, Segment.ofIndex index hardened = .ok step) ↔ index < 2 ^ 31) ∧
    (∀ (path : Path) step, (∃ longer, path.child step = .ok longer) ↔ path.depth < 255) ∧
    (∀ key : PrivateKey, PrivateKey.ofBytes key.bytes = .ok key) ∧
    (∀ (key : ExtendedPrivateKey) target, key.path.suffixIn target = some [] →
      key.descend target = ⟨[.derived target.depth 0], .ok key⟩) ∧
    (∀ (half : ExtendedPublicKey) target, half.path.suffixIn target = some [] →
      half.descend target = .ok half) ∧
    ∀ key peer, ∃ x y, peer.point.multiple key.scalar.value = .affine x y ∧
      IsPoint x.val y.val ∧ (SharedSecret.derive key peer).padded = x.bytes := by
  refine ⟨fun held run => run.isValid, fun data key => PrivateKey.ofBytes_eq_ok_iff,
    fun key sum tweak => PrivateKey.offsetBy_eq_ok_iff,
    fun half sum tweak => PublicKey.offsetBy_eq_ok_iff, PrivateKey.point_publicKey,
    fun index hardened => Segment.exists_ofIndex_iff, fun path step => Path.exists_child_iff,
    PrivateKey.ofBytes_bytes, ?_, ?_, SharedSecret.exists_coordinates⟩
  · intro key target
    exact ExtendedPrivateKey.descend_of_suffixIn
  · intro half target
    exact ExtendedPublicKey.descend_of_suffixIn

/-- The key `5` is read and placed at `m/a:1'`, a child is derived from it, and the public half of
the child is taken. -/
theorem keys_stay_valid_after_child :
    let five : PrivateKey := ⟨⟨5, by decide⟩⟩
    let start : ExtendedPrivateKey :=
      ⟨five, .ofNat 32 7, ⟨[⟨some "a", 1, true, by decide⟩], by decide⟩⟩
    let target : Path := ⟨[⟨none, 1, true, by decide⟩], by decide⟩
    (∃ key : ExtendedPrivateKey, key.path.depth = 2 ∧
      Key.Run [.ofExtendedPublic key.toPublic, .ofExtendedPrivate key, .ofExtendedPrivate start,
        .ofPrivate five] ∧
      (Key.ofExtendedPrivate key).IsValid ∧ (Key.ofExtendedPublic key.toPublic).IsValid) ∧
    (start.path.suffixIn target = some [] ∧
      start.descend target = ⟨[.derived 1 0], .ok start⟩) ∧
    (start.toPublic.path.suffixIn target = some [] ∧
      start.toPublic.descend target = .ok start.toPublic) := by
  intro five start target
  have derived : (start.child ⟨none, 2, true, by decide⟩).toOption.map
      (fun key => key.path.depth) = some 2 := by
    decide +kernel
  obtain ⟨key, hkey, hdepth⟩ := exists_eq_ok_of_map_eq_some derived
  obtain ⟨valid, -, -, -, -, -, -, again, here, here', -⟩ := keys_stay_valid
  have run : Key.Run [.ofExtendedPublic key.toPublic, .ofExtendedPrivate key,
      .ofExtendedPrivate start, .ofPrivate five] :=
    (((Key.Run.start.next (.read (again five))).next (.assemble _ _ List.mem_cons_self)).next
      (.child List.mem_cons_self hkey)).next (.toPublic List.mem_cons_self)
  have found : start.path.suffixIn target = some [] := by decide
  have found' : start.toPublic.path.suffixIn target = some [] := found
  exact ⟨⟨key, hdepth, run, valid _ run _ (by simp), valid _ run _ List.mem_cons_self⟩,
    ⟨found, here _ _ found⟩, ⟨found', here' _ _ found'⟩⟩

end SealedMail
