import Mathlib
import OntologyService.Proofs.Order.Listing
import OntologyService.Proofs.Text.Utf8
import OntologyService.Source.FileTree

/-!
# What a directory publishes

The file of an ontology has its name with the extension behind it (`FileName.of`), and a name that
is read off a file is read off that file only (`FileName.stem_eq_some_iff`). So what a directory
publishes can be said of names: `load_lists` has every file of an ontology in one of the two lists
of the catalog, and nothing else in either, whatever the documents are read with. A document has the
sixteen digits of the digest of its content for a version, so versions tell as much apart as the
digest does (`versionOf_injective`).

Files are taken in the order of their names with the extension. That is the order of the names of
the ontologies unless one goes on from another with a text that comes before the extension
(`Catalog.Overtaken`), as `a-b` does from `a`: the one that goes on then comes first
(`FileName.before_of_before_json`).
-/

namespace OntologyService

open Ranked (Before)

/-! ## Names of files -/

namespace FileName

variable {n stem extension : FileName} {name : String}

/-- The name of the file of an ontology. -/
def of (name : String) : FileName := (name ++ ".json").toUTF8.toList

/-- The file name of a name is its octets, then those of the extension. -/
theorem of_eq (name : String) :
    of name = Utf8.encode name.toList ++ ".json".toUTF8.toList := by
  have json : ".json".toUTF8.toList = Utf8.encode ".json".toList := by decide +kernel
  rw [of, json, Utf8.encode, Utf8.encode, ← List.flatMap_append, ← String.toList_append]
  rw [← Utf8.encode, ← toUTF8_ofList, String.ofList_toList]

/-- It is also the octets of the name with the extension. -/
theorem of_eq_encode (name : String) : of name = Utf8.encode (name ++ ".json").toList := by
  rw [of, ← toUTF8_ofList, String.ofList_toList]

/-- A name is split at the last of its points. -/
theorem split_append (here : stem ≠ []) (more : extension ≠ [])
    (plain : ∀ b ∈ extension, b ≠ 46) :
    split (stem ++ 46 :: extension) = (stem, some extension) := by
  have behind : (stem ++ 46 :: extension).reverse.takeWhile (fun b => decide (b ≠ 46))
      = extension.reverse := by
    rw [List.reverse_append, List.reverse_cons, List.append_assoc]
    rw [List.takeWhile_append_of_pos fun b hb =>
      decide_eq_true (plain b (List.mem_reverse.1 hb))]
    exact List.append_nil _
  have before : ((stem ++ 46 :: extension).reverse.drop (extension.reverse.length + 1)).reverse
      = stem := by
    rw [List.reverse_append, List.reverse_cons, List.append_assoc, List.drop_append,
      List.drop_eq_nil_of_le (Nat.le_succ _), Nat.add_sub_cancel_left]
    exact List.reverse_reverse stem
  have other : stem ++ 46 :: extension ≠ [46, 46] := by
    intro same
    have long := congrArg List.length same
    rw [List.length_append, List.length_cons] at long
    have := List.length_pos_iff.2 here
    have := List.length_pos_iff.2 more
    simp only [List.length_cons, List.length_nil] at long
    omega
  rw [split]
  simp only [behind, before]
  rw [if_neg (not_or.2 ⟨other, by rwa [List.isEmpty_iff]⟩), List.reverse_reverse]

/-- A name that splits is its stem, a dot and its extension, and the stem is not empty. -/
theorem eq_of_split (parts : n.split = (stem, some extension)) :
    stem ≠ [] ∧ n = stem ++ 46 :: extension := by
  rw [split] at parts
  split_ifs at parts with whole
  · cases parts
  rw [not_or, List.isEmpty_iff] at whole
  obtain ⟨rfl, behind⟩ := Prod.mk.inj parts
  obtain rfl := Option.some.inj behind
  refine ⟨whole.2, ?_⟩
  replace whole := whole.2
  have halves := (List.takeWhile_append_dropWhile
    (p := fun b : UInt8 => decide (b ≠ 46)) (l := n.reverse)).symm
  have point := List.head?_dropWhile_not (fun b : UInt8 => decide (b ≠ 46)) n.reverse
  generalize n.reverse.takeWhile (fun b => decide (b ≠ 46)) = taken at *
  generalize n.reverse.dropWhile (fun b => decide (b ≠ 46)) = left at *
  rw [halves, List.drop_append, List.drop_eq_nil_of_le (Nat.le_succ _),
    Nat.add_sub_cancel_left, List.nil_append] at whole ⊢
  cases left with
  | nil => exact absurd rfl whole
  | cons b before =>
    obtain rfl : b = 46 := by simpa using point
    rw [← List.reverse_reverse n, halves, List.reverse_append, List.reverse_cons,
      List.append_assoc]
    rfl

/-- **A name is read off the file** that is of that name, and off no other. -/
theorem stem_eq_some_iff :
    n.stem?.bind Utf8.decode? = some name ↔ name ≠ "" ∧ n = of name := by
  have octets : ".json".toUTF8.toList = 46 :: "json".toUTF8.toList := by decide +kernel
  have full : Utf8.encode name.toList ≠ [] ↔ name ≠ "" := by
    rw [ne_eq, eq_comm, ← Utf8.decode?_eq_some_iff, show Utf8.decode? [] = some "" from rfl,
      Option.some_inj, eq_comm]
  rw [Option.bind_eq_some_iff, of_eq, octets]
  constructor
  · rintro ⟨stem, found, read⟩
    rw [stem?] at found
    split at found
    · next split =>
      split_ifs at found with json
      cases found
      obtain ⟨here, rfl⟩ := eq_of_split split
      obtain rfl := Utf8.decode?_eq_some_iff.1 read
      exact ⟨full.1 here, by rw [json]⟩
    · cases found
  · rintro ⟨here, rfl⟩
    refine ⟨_, ?_, Utf8.decode?_eq_some_iff.2 rfl⟩
    rw [stem?, split_append (full.2 here) (by decide +kernel) (by decide +kernel)]
    exact if_pos rfl

/-! ### Their order -/

/-- The extension changes nothing between a text and one that has only greater characters. -/
theorem append_lt_iff {point : Char} {extension : List Char} : ∀ {cs ds : List Char},
    (∀ d ∈ ds, point < d) → (cs ++ point :: extension < ds ↔ cs < ds)
  | [], [], _ => by simp only [List.not_lt_nil]
  | [], d :: ds, greater =>
    iff_of_true (List.cons_lt_cons_iff.2 (.inl (greater d List.mem_cons_self)))
      (List.nil_lt_cons d ds)
  | c :: cs, [], _ => by simp only [List.not_lt_nil]
  | c :: cs, d :: ds, greater => by
    rw [List.cons_append, List.cons_lt_cons_iff, List.cons_lt_cons_iff,
      append_lt_iff fun d' h => greater d' (List.mem_cons_of_mem d h)]

/-- Lists of characters with one beginning compare as what follows it. -/
theorem append_lt_append_iff {front cs ds : List Char} :
    front ++ cs < front ++ ds ↔ cs < ds := by
  induction front with
  | nil => rfl
  | cons c front ih =>
    rw [List.cons_append, List.cons_append, List.cons_lt_cons_iff, ih]
    simp only [Char.lt_irrefl, true_and, false_or]

/-- Two texts stand in one order whatever follows them, unless one goes on from the other. -/
theorem append_lt_append_or {cs ds : List Char} (less : cs < ds) (xs ys : List Char) :
    cs ++ xs < ds ++ ys ∨ ∃ more, more ≠ [] ∧ ds = cs ++ more := by
  induction cs generalizing ds with
  | nil =>
    refine .inr ⟨ds, ?_, rfl⟩
    rintro rfl
    exact List.lt_irrefl [] less
  | cons c cs ih =>
    cases ds with
    | nil => exact absurd less (List.not_lt_nil _)
    | cons d ds =>
      rw [List.cons_append, List.cons_append, List.cons_lt_cons_iff]
      rcases List.cons_lt_cons_iff.1 less with first | ⟨rfl, later⟩
      · exact .inl (.inl first)
      · rcases ih later with less | ⟨more, full, rfl⟩
        · exact .inl (.inr ⟨rfl, less⟩)
        · exact .inr ⟨more, full, rfl⟩

/-- A file comes before another one whose name it goes on from just if what it goes on with comes
before the extension. -/
theorem before_json_iff {name more : String} (goes : more ≠ "") :
    Before (name ++ more ++ ".json") (name ++ ".json") ↔ Before more ".json" := by
  have json : ".json".toList = '.' :: "json".toList := rfl
  have greater : "json".toList.all (fun d => decide ('.' < d)) = true := by decide
  rw [Utf8.before_iff, Utf8.before_iff, String.toList_append, String.toList_append,
    String.toList_append, List.append_assoc, append_lt_append_iff, json]
  cases h : more.toList with
  | nil => exact absurd (String.toList_eq_nil_iff.1 h) goes
  | cons c cs =>
    rw [List.cons_append, List.cons_lt_cons_iff, List.cons_lt_cons_iff,
      append_lt_iff fun d hd => of_decide_eq_true (List.all_eq_true.1 greater d hd)]

/-- **The order of files** is that of the names, unless one goes on from the other. -/
theorem before_of_before_json {s t : String} (before : Before (s ++ ".json") (t ++ ".json")) :
    Before s t ∨ ∃ more, more ≠ "" ∧ s = t ++ more ∧ Before more ".json" := by
  rcases Ranked.before_or_eq_or_before s t with less | rfl | greater
  · exact .inl less
  · exact absurd before (Ranked.before_irrefl _)
  rcases append_lt_append_or (Utf8.before_iff.1 greater) ".json".toList ".json".toList with
    after | ⟨more, full, goes⟩
  · rw [← String.toList_append, ← String.toList_append, ← Utf8.before_iff] at after
    exact absurd before after.asymm
  · have there : String.ofList more ≠ "" := by rwa [ne_eq, String.ofList_eq_empty_iff]
    have same : s = t ++ String.ofList more := by
      rw [← String.toList_inj, goes, String.toList_append, String.toList_ofList]
    rw [same, before_json_iff there] at before
    exact .inr ⟨_, there, same, before⟩

/-- A text comes before what goes on from it. -/
theorem before_append {name more : String} (goes : more ≠ "") : Before name (name ++ more) := by
  rw [Utf8.before_iff, String.toList_append]
  cases h : more.toList with
  | nil => exact absurd (String.toList_eq_nil_iff.1 h) goes
  | cons c cs =>
    have less : name.toList ++ [] < name.toList ++ c :: cs :=
      append_lt_append_iff.2 (List.nil_lt_cons c cs)
    rwa [List.append_nil] at less

end FileName

/-! ## The order of a catalog -/

/-- What stands in two orders is in the one wherever it is in the other. -/
theorem rel_of_pairwise {α : Type} {R S : α → α → Prop} {as : List α}
    (both : as.Pairwise fun a b => R a b ∧ S a b) (asymm : ∀ {a b}, R a b → ¬ R b a) {a b : α}
    (ha : a ∈ as) (hb : b ∈ as) (h : R a b) : S a b := by
  induction both with
  | nil => cases ha
  | cons first _ ih =>
    rcases List.mem_cons.1 ha with rfl | behind <;> rcases List.mem_cons.1 hb with rfl | behind'
    · exact absurd h (asymm h)
    · exact (first b behind').2
    · exact absurd h (asymm (first a behind).1)
    · exact ih behind behind'

namespace Catalog

/-- **The documents stand in the order of their names.** -/
def Sorted (c : Catalog) : Prop := c.documents.Pairwise fun d d' => Before d.name d'.name

instance (c : Catalog) : Decidable c.Sorted :=
  inferInstanceAs (Decidable (c.documents.Pairwise _))

/-- A catalog is sorted if and only if its names come one before the other. -/
theorem sorted_iff {c : Catalog} : c.Sorted ↔ (c.documents.map Document.name).Pairwise Before :=
  List.pairwise_map.symm

/-- The name of one document goes on from that of another, with a text that comes before the
extension. -/
def Overtaken (c : Catalog) : Prop :=
  ∃ d ∈ c.documents, ∃ d' ∈ c.documents, ∃ more : String,
    more ≠ "" ∧ d'.name = d.name ++ more ∧ Before more ".json"

/-- Documents in the order of their files are in the order of their names if none is overtaken. -/
theorem sorted_iff_not_overtaken {c : Catalog}
    (files : c.documents.Pairwise fun d d' => Before (d.name ++ ".json") (d'.name ++ ".json")) :
    c.Sorted ↔ ¬ c.Overtaken := by
  constructor
  · rintro sorted ⟨d, hd, d', hd', more, goes, name, early⟩
    have overtakes : Before (d'.name ++ ".json") (d.name ++ ".json") := by
      rw [name]
      exact (FileName.before_json_iff goes).2 early
    have agree : Before d'.name d.name :=
      rel_of_pairwise (files.and sorted) (fun before => before.asymm) hd' hd overtakes
    rw [name] at agree
    exact agree.asymm (FileName.before_append goes)
  · intro free
    refine files.imp_of_mem fun {d d'} hd hd' before => ?_
    rcases FileName.before_of_before_json before with less | ⟨more, goes, name, early⟩
    · exact less
    · exact absurd ⟨d', hd', d, hd, more, goes, name, early⟩ free

end Catalog

/-! ## What is published -/

namespace DirectoryListing

variable {l : DirectoryListing} {k : DocumentReader} {dir : String}

/-- A file of the ontology stands in the directory, with that content. -/
def Holds (l : DirectoryListing) (name : String) (content : Except String (List UInt8)) : Prop :=
  name ≠ "" ∧ (FileName.of name, .file content) ∈ l

/-- A listing that names each file once holds one content of each. -/
theorem Holds.eq {name : String} {content content' : Except String (List UInt8)}
    (h : l.Holds name content) (h' : l.Holds name content') (distinct : (l.map Prod.fst).Nodup) :
    content = content' := by
  have same := List.inj_on_of_nodup_map distinct h.2 h'.2 rfl
  exact DirectoryItem.file.inj (Prod.mk.inj same).2

/-- **What is found** is what stands in the files of ontologies. -/
theorem mem_found {f : Found} :
    f ∈ l.found ↔ f.fileName = FileName.of f.name ∧ l.Holds f.name f.content := by
  rw [found, List.mem_mergeSort, List.mem_filterMap]
  constructor
  · rintro ⟨⟨n, content | _⟩, listed, here⟩
    · obtain ⟨stem, split, here⟩ := Option.bind_eq_some_iff.1 here
      obtain ⟨name, read, rfl⟩ := Option.map_eq_some_iff.1 here
      obtain ⟨full, rfl⟩ :=
        FileName.stem_eq_some_iff.1 (Option.bind_eq_some_iff.2 ⟨stem, split, read⟩)
      exact ⟨rfl, full, listed⟩
    · cases here
  · obtain ⟨n, name, content⟩ := f
    rintro ⟨file, full, listed⟩
    obtain rfl : n = FileName.of name := file
    refine ⟨_, listed, ?_⟩
    obtain ⟨stem, split, read⟩ :=
      Option.bind_eq_some_iff.1 (FileName.stem_eq_some_iff.2 ⟨full, rfl⟩)
    exact Option.bind_eq_some_iff.2 ⟨stem, split, by rw [read]; rfl⟩

/-- That nothing comes before is transitive. -/
theorem not_before_trans {a b c : FileName} (hab : ¬ Before b a) (hbc : ¬ Before c b) :
    ¬ Before c a := by
  intro hca
  rcases Ranked.before_or_eq_or_before a b with before | rfl | after
  · exact hbc (hca.trans before)
  · exact hbc hca
  · exact hab after

/-- A file that is found keeps its file name. -/
theorem fileName_eq {n : FileName} {content : Except String (List UInt8)} {f : Found}
    (here : (n.stem?.bind fun stem => (Utf8.decode? stem).map fun name => Found.mk n name content)
      = some f) : f.fileName = n := by
  obtain ⟨_, _, here⟩ := Option.bind_eq_some_iff.1 here
  obtain ⟨_, _, rfl⟩ := Option.map_eq_some_iff.1 here
  rfl

/-- The file names that are found are as distinct as those of the directory. -/
theorem found_distinct (distinct : (l.map Prod.fst).Nodup) :
    l.found.Pairwise fun f g => f.fileName ≠ g.fileName := by
  rw [found, (List.mergeSort_perm _ _).pairwise_iff Ne.symm, List.pairwise_filterMap]
  refine (List.pairwise_map.1 distinct).imp fun {a b} other f here g here' => ?_
  obtain ⟨n, content | _⟩ := a
  · obtain ⟨n', content' | _⟩ := b
    · rwa [fileName_eq here, fileName_eq here']
    · cases here'
  · cases here

/-- **What is found stands in the order of the files**, each under a name of its own. -/
theorem found_ascending (distinct : (l.map Prod.fst).Nodup) :
    l.found.Pairwise fun f g => Before (f.name ++ ".json") (g.name ++ ".json") := by
  have sorted : l.found.Pairwise fun f g =>
      decide (Ranked.cmp f.fileName g.fileName ≠ .gt) = true := by
    refine List.pairwise_mergeSort (fun f g h => ?_) (fun f g => ?_) _
    · simp only [decide_eq_true_eq, ne_eq, Ranked.cmp_gt_iff]
      exact not_before_trans
    · simp only [Bool.or_eq_true, decide_eq_true_eq, ne_eq, Ranked.cmp_gt_iff]
      exact not_and_or.1 fun both => both.1.asymm both.2
  refine (sorted.and (found_distinct distinct)).imp_of_mem fun {f g} hf hg order => ?_
  have file := (mem_found.1 hf).1
  have file' := (mem_found.1 hg).1
  rw [← Utf8.before_encode_iff, ← FileName.of_eq_encode, ← FileName.of_eq_encode, ← file,
    ← file']
  rcases Ranked.before_or_eq_or_before f.fileName g.fileName with before | same | after
  · exact before
  · exact absurd same order.2
  · exact absurd (Ranked.cmp_gt_iff.2 after) (of_decide_eq_true order.1)

/-! ### Versions -/

/-- A digit below sixteen has a character of its own. -/
theorem digitChar_injective {a b : Nat} (below : a < 16) (below' : b < 16)
    (same : Nat.digitChar a = Nat.digitChar b) : a = b := by
  have apart : ∀ a < 16, ∀ b < 16, Nat.digitChar a = Nat.digitChar b → a = b := by decide
  exact apart a below b below' same

/-- Numbers of as many places are told apart by what stands there. -/
theorem eq_of_places (places : Nat) {a b : Nat} (small : a < 16 ^ places) (small' : b < 16 ^ places)
    (agree : ∀ i < places, a / 16 ^ i % 16 = b / 16 ^ i % 16) : a = b := by
  induction places generalizing a b with
  | zero =>
    rw [Nat.pow_zero, Nat.lt_one_iff] at small small'
    rw [small, small']
  | succ places ih =>
    have units : a % 16 = b % 16 := by simpa using agree 0 (Nat.succ_pos places)
    have above : a / 16 = b / 16 := by
      refine ih ?_ ?_ fun i below => ?_
      · exact Nat.div_lt_of_lt_mul (by rwa [Nat.pow_succ'] at small)
      · exact Nat.div_lt_of_lt_mul (by rwa [Nat.pow_succ'] at small')
      · rw [Nat.div_div_eq_div_mul, Nat.div_div_eq_div_mul, ← Nat.pow_succ']
        exact agree (i + 1) (Nat.succ_lt_succ below)
    rw [← Nat.div_add_mod a 16, ← Nat.div_add_mod b 16, above, units]

/-- **Versions tell digests apart**, and so they tell contents apart that have different digests. -/
theorem versionOf_injective {a b : UInt64} (same : versionOf a = versionOf b) : a = b := by
  have digits : ∀ n ∈ List.range 16,
      Nat.digitChar (a.toNat / 16 ^ (15 - n) % 16) = Nat.digitChar (b.toNat / 16 ^ (15 - n) % 16) :=
    List.map_inj_left.1 (String.ofList_injective same)
  refine UInt64.toNat_inj.1 (eq_of_places 16 a.toNat_lt b.toNat_lt fun i below => ?_)
  have here := digits (15 - i) (List.mem_range.2 (by omega))
  rw [show 15 - (15 - i) = i by omega] at here
  exact digitChar_injective (Nat.mod_lt _ (by decide)) (Nat.mod_lt _ (by decide)) here

/-! ### The two lists -/

/-- Why the document of an ontology is not read. -/
def Spoilt (l : DirectoryListing) (k : DocumentReader) (path name : String) (error : SourceError) :
    Prop :=
  (∃ reason, l.Holds name (.error reason) ∧ error = .io path reason) ∨
    ∃ octets, l.Holds name (.ok octets) ∧ DocumentFile.decode.octets octets = none ∧
      error = .parse path (k.complaint octets)

/-- The name of the file of an ontology is shown as it is. -/
theorem decodeLossy_of (name : String) : Utf8.decodeLossy (FileName.of name) = name ++ ".json" := by
  rw [FileName.of_eq_encode, Utf8.decodeLossy, Utf8.decode_encode, List.map_map]
  rw [show ((fun c : Option Char => c.getD '\uFFFD') ∘ some) = id from rfl, List.map_id]
  rw [String.ofList_toList]

/-- What is read is a document with the axioms of the content and the version of its digest. -/
theorem readDocument_eq_ok_iff {path name : String} {content : Except String (List UInt8)}
    {d : Document} : readDocument k path name content = .ok d ↔
      d.name = name ∧ ∃ octets, content = .ok octets ∧
        DocumentFile.decode.octets octets = some ⟨d.axioms⟩ ∧
          d.version = versionOf (k.digest octets) := by
  unfold readDocument
  constructor
  · intro read
    split at read
    · cases read
    split at read
    · cases read
    · next file parsed =>
      cases read
      exact ⟨rfl, _, rfl, parsed, rfl⟩
  · rintro ⟨rfl, octets, rfl, parsed, version⟩
    simp only [parsed, ← version]

/-- What is not read had no content to read, or one that is no document. -/
theorem readDocument_eq_error_iff {path name : String} {content : Except String (List UInt8)}
    {error : SourceError} : readDocument k path name content = .error error ↔
      (∃ reason, content = .error reason ∧ error = .io path reason) ∨
        ∃ octets, content = .ok octets ∧ DocumentFile.decode.octets octets = none ∧
          error = .parse path (k.complaint octets) := by
  unfold readDocument
  constructor
  · intro read
    split at read
    · next reason =>
      cases read
      exact .inl ⟨reason, rfl, rfl⟩
    split at read
    · next parsed =>
      cases read
      exact .inr ⟨_, rfl, parsed, rfl⟩
    · cases read
  · rintro (⟨reason, rfl, rfl⟩ | ⟨octets, rfl, parsed, rfl⟩)
    · rfl
    · simp only [parsed]

/-- What is read of a file of the directory. -/
def reading (k : DocumentReader) (dir : String) (f : Found) : Except SourceError Document :=
  readDocument k (pathIn dir (Utf8.decodeLossy f.fileName)) f.name f.content

/-- The documents of a directory are the files found that read as one. -/
theorem load_documents : (l.load k dir).documents = l.found.filterMap fun f =>
    match reading k dir f with
    | .ok d => some d
    | .error _ => none := List.filterMap_map ..

/-- What is rejected is the other files found, with what is wrong with each. -/
theorem load_rejected : (l.load k dir).rejected = l.found.filterMap fun f =>
    match reading k dir f with
    | .ok _ => none
    | .error error => some ⟨f.name, error⟩ := List.filterMap_map ..

/-- **The documents** are what is read of the files of ontologies. -/
theorem mem_documents {d : Document} : d ∈ (l.load k dir).documents ↔
    ∃ octets, l.Holds d.name (.ok octets) ∧
      DocumentFile.decode.octets octets = some ⟨d.axioms⟩ ∧
        d.version = versionOf (k.digest octets) := by
  rw [load_documents, List.mem_filterMap]
  constructor
  · rintro ⟨f, here, read⟩
    split at read
    · next d' read' =>
      cases read
      obtain ⟨name, octets, content, rest⟩ := readDocument_eq_ok_iff.1 read'
      exact ⟨octets, by rw [name, ← content]; exact (mem_found.1 here).2, rest⟩
    · cases read
  · rintro ⟨octets, holds, rest⟩
    refine ⟨⟨FileName.of d.name, d.name, .ok octets⟩, mem_found.2 ⟨rfl, holds⟩, ?_⟩
    rw [reading, readDocument_eq_ok_iff.2 ⟨rfl, octets, rfl, rest⟩]

/-- **The rejected** are the files of ontologies that are not read. -/
theorem mem_rejected {r : Rejection} : r ∈ (l.load k dir).rejected ↔
    l.Spoilt k (pathIn dir (r.name ++ ".json")) r.name r.error := by
  rw [load_rejected, List.mem_filterMap]
  constructor
  · rintro ⟨f, here, read⟩
    split at read
    · cases read
    · next error read' =>
      cases read
      obtain ⟨file, holds⟩ := mem_found.1 here
      rw [reading, file, decodeLossy_of] at read'
      rcases readDocument_eq_error_iff.1 read' with
        ⟨reason, content, rfl⟩ | ⟨octets, content, parsed, rfl⟩
      · exact .inl ⟨reason, by rw [← content]; exact holds, rfl⟩
      · exact .inr ⟨octets, by rw [← content]; exact holds, parsed, rfl⟩
  · intro spoilt
    obtain ⟨content, holds, failed⟩ : ∃ content, l.Holds r.name content ∧
        readDocument k (pathIn dir (r.name ++ ".json")) r.name content = .error r.error := by
      rcases spoilt with ⟨reason, holds, error⟩ | ⟨octets, holds, parsed, error⟩
      · exact ⟨_, holds, readDocument_eq_error_iff.2 (.inl ⟨reason, rfl, error⟩)⟩
      · exact ⟨_, holds, readDocument_eq_error_iff.2 (.inr ⟨octets, rfl, parsed, error⟩)⟩
    refine ⟨⟨FileName.of r.name, r.name, content⟩, mem_found.2 ⟨rfl, holds⟩, ?_⟩
    rw [reading, decodeLossy_of, failed]

/-- What is made of the files that are found, each under its name, stands in their order. -/
theorem ascending_filterMap {β : Type} {g : Found → Option β} {name : β → String}
    (distinct : (l.map Prod.fst).Nodup) (named : ∀ f b, g f = some b → name b = f.name) :
    (l.found.filterMap g).Pairwise fun b b' => Before (name b ++ ".json") (name b' ++ ".json") := by
  refine List.pairwise_filterMap.2 ((found_ascending distinct).imp fun before b made b' made' => ?_)
  rwa [named _ b made, named _ b' made']

/-- The documents stand in the order of their files. -/
theorem documents_ascending (distinct : (l.map Prod.fst).Nodup) (k : DocumentReader)
    (dir : String) : (l.load k dir).documents.Pairwise fun d d' =>
      Before (d.name ++ ".json") (d'.name ++ ".json") := by
  rw [load_documents]
  refine ascending_filterMap distinct fun f d read => ?_
  split at read
  · next read' =>
    cases read
    exact (readDocument_eq_ok_iff.1 read').1
  · cases read

/-- So do the rejected. -/
theorem rejected_ascending (distinct : (l.map Prod.fst).Nodup) (k : DocumentReader)
    (dir : String) : (l.load k dir).rejected.Pairwise fun r r' =>
      Before (r.name ++ ".json") (r'.name ++ ".json") := by
  rw [load_rejected]
  refine ascending_filterMap distinct fun f r read => ?_
  split at read
  · cases read
  · cases read
    rfl

/-- **What a directory publishes**, with whatever its documents are read. The documents are the
files of ontologies that are read, the rejected are the others, no name is in both lists or twice in
one, and the documents stand in the order of their files. That is the order of their names just if
none is overtaken. -/
theorem load_lists (distinct : (l.map Prod.fst).Nodup) (k : DocumentReader) (dir : String) :
    (∀ d, d ∈ (l.load k dir).documents ↔
      ∃ octets, l.Holds d.name (.ok octets) ∧
        DocumentFile.decode.octets octets = some ⟨d.axioms⟩ ∧
          d.version = versionOf (k.digest octets)) ∧
    (∀ r, r ∈ (l.load k dir).rejected ↔
      l.Spoilt k (pathIn dir (r.name ++ ".json")) r.name r.error) ∧
    ((l.load k dir).documents.map Document.name
      ++ (l.load k dir).rejected.map Rejection.name).Nodup ∧
    ((l.load k dir).documents.Pairwise fun d d' =>
      Before (d.name ++ ".json") (d'.name ++ ".json")) ∧
    ((l.load k dir).Sorted ↔ ¬ (l.load k dir).Overtaken) := by
  have files := documents_ascending distinct k dir
  refine ⟨fun _ => mem_documents, fun _ => mem_rejected, List.nodup_append'.2 ⟨?_, ?_, ?_⟩,
    files, Catalog.sorted_iff_not_overtaken files⟩
  · exact List.pairwise_map.2 (files.imp fun before same => before.ne (by rw [same]))
  · exact List.pairwise_map.2
      ((rejected_ascending distinct k dir).imp fun before same => before.ne (by rw [same]))
  · intro name listed listed'
    obtain ⟨d, hd, rfl⟩ := List.mem_map.1 listed
    obtain ⟨r, hr, same⟩ := List.mem_map.1 listed'
    obtain ⟨octets, holds, parsed, -⟩ := mem_documents.1 hd
    rcases mem_rejected.1 hr with ⟨reason, holds', -⟩ | ⟨octets', holds', failed, -⟩
    · cases holds.eq (same ▸ holds') distinct
    · cases holds.eq (same ▸ holds') distinct
      cases parsed.symm.trans failed

/-- The names of the documents, which are the same whatever the documents are read with. -/
def published (l : DirectoryListing) : List String :=
  l.found.filterMap fun f =>
    match f.content with
    | .error _ => none
    | .ok octets => (DocumentFile.decode.octets octets).map fun _ => f.name

/-- The documents stand under the names that are published. -/
theorem map_name_documents (l : DirectoryListing) (k : DocumentReader) (dir : String) :
    (l.load k dir).documents.map Document.name = l.published := by
  rw [load_documents, List.map_filterMap, published]
  refine List.filterMap_congr fun f _ => ?_
  dsimp only [reading, readDocument]
  cases f.content with
  | error reason => rfl
  | ok octets =>
    dsimp only
    cases DocumentFile.decode.octets octets <;> rfl

/-- A directory that has a document of each kind. -/
def mixed : DirectoryListing :=
  [(FileName.of "zoo", .file (.ok "\x7b\x7d".toUTF8.toList)), (FileName.of "farm", .file (.ok [])),
    ("notes".toUTF8.toList, .file (.ok [])), (FileName.of "old", .other),
    (FileName.of "attic", .file (.error "Permission denied (os error 13)")),
    (FileName.of "ark", .file (.ok "\x7b\"axioms\": []\x7d".toUTF8.toList))]

/-- The order in which that directory lists its two documents is the one of their names. -/
theorem not_overtaken_mixed : (mixed.map Prod.fst).Nodup ∧ ¬ (mixed.load {} "data").Overtaken := by
  have distinct : (mixed.map Prod.fst).Nodup := by decide +kernel
  have sorted : (mixed.load {} "data").Sorted := by
    rw [Catalog.sorted_iff, map_name_documents]
    decide_cbv
  exact ⟨distinct, (load_lists distinct {} "data").2.2.2.2.1 sorted⟩

/-- The documents of a directory that has `a-b` beside `a` are not sorted by name. -/
theorem not_sorted_of_overtaken :
    let l : DirectoryListing :=
      [(FileName.of "a", .file (.ok "\x7b\"axioms\": []\x7d".toUTF8.toList)),
        (FileName.of "a-b", .file (.ok "\x7b\"axioms\": []\x7d".toUTF8.toList))]
    (l.map Prod.fst).Nodup ∧ (l.load {} "data").documents.map Document.name = ["a-b", "a"] ∧
      ¬ (l.load {} "data").Sorted := by
  intro l
  rw [Catalog.sorted_iff, map_name_documents]
  decide_cbv

end DirectoryListing

namespace FileTree

variable {t : FileTree} {l : DirectoryListing}

/-- A directory of a tree has every name once. -/
theorem list_distinct {p : TreePath} (listed : t.list p = .ok l) : (l.map Prod.fst).Nodup := by
  unfold list at listed
  split at listed
  · cases listed
  · cases listed
  cases listed
  have keys : t.nodes.toList.Pairwise fun e e' => e.1 ≠ e'.1 := by
    rw [← List.pairwise_map, ← Table.keys_eq_map]
    exact t.nodes.keys_nodup
  refine List.pairwise_map.2 (List.pairwise_filterMap.2
    (keys.imp fun {e e'} other item here item' here' same => ?_))
  -- a path is the directory's with the name behind it
  obtain ⟨q, node⟩ := e
  obtain ⟨q', node'⟩ := e'
  dsimp only at here here'
  split at here
  · next name last =>
    split at here'
    · next name' last' =>
      split_ifs at here here' with above above'
      cases here
      cases here'
      refine other ?_
      rw [← List.dropLast_append_getLast? name last, ← List.dropLast_append_getLast? name' last']
      exact congrArg₂ (fun p n => p ++ [n]) (above.trans above'.symm) same
    · cases here'
  · cases here

/-- **What a tree publishes** is what a listing does that has every name once. -/
theorem exists_of_load {k : DocumentReader} {dir : String} {c : Catalog}
    (loaded : t.load k dir = .ok c) :
    ∃ l : DirectoryListing, (l.map Prod.fst).Nodup ∧ l.load k dir = c := by
  unfold load at loaded
  split at loaded
  · cases loaded
  split at loaded
  · cases loaded
  · next l listed =>
    cases loaded
    exact ⟨l, list_distinct listed, rfl⟩

end FileTree

end OntologyService
