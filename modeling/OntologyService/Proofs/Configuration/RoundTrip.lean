import OntologyService.Configuration.Document
import OntologyService.Proofs.Http.Percent
import OntologyService.Proofs.Source.FileTree
import OntologyService.Proofs.Toml.Document

/-!
# Configurations that are saved and loaded

A configuration is written as a document of plain lines, one for each setting (`lines`). Each line
can be read, because a text is read back from the quotation that it is written in and a number that
fits from its digits (`sound_lines`), so the document spells the settings (`read_render`), and the
settings make the configuration again (`ofFields?_fields`). No default gets in the way: every
setting is in the document.

**The law** (`kept`): a configuration whose numbers fit is what is loaded from where it was saved,
in every tree, at every path that the tree admits and whatever characters its texts hold; one whose
numbers do not fit is refused before anything is touched.
-/

namespace OntologyService

namespace Configuration

variable {c : Configuration} {k : Wording} {t : FileTree} {path : String}

/-- The numbers of seconds are such as a document can hold. -/
def Fits (c : Configuration) : Prop :=
  c.updateIntervalSecs.toNat ≤ 2 ^ 63 - 1 ∧ c.drainTimeoutSecs.toNat ≤ 2 ^ 63 - 1

instance (c : Configuration) : Decidable c.Fits := inferInstanceAs (Decidable (_ ∧ _))

/-- The lines of a document. -/
def lines (c : Configuration) : List Toml.Line :=
  [⟨"host", writeText c.host, .string c.host⟩,
   ⟨"port", writeNat c.port.toNat, .integer c.port.toNat⟩,
   ⟨"update_interval_secs", writeNat c.updateIntervalSecs.toNat,
      .integer c.updateIntervalSecs.toNat⟩,
   ⟨"drain_timeout_secs", writeNat c.drainTimeoutSecs.toNat, .integer c.drainTimeoutSecs.toNat⟩,
   ⟨"ontology_dir", writeText c.ontologyDir, .string c.ontologyDir⟩,
   ⟨"explain_limit", writeText c.explainLimit.name, .string c.explainLimit.name⟩]

/-- A number fits up to the greatest one with a sign in 64 bits. -/
theorem fits_iff (n : UInt64) : fits n = true ↔ n.toNat ≤ 2 ^ 63 - 1 := by
  rw [fits, decide_eq_true_iff, Toml.integerBound]
  omega

/-- What fits is written line by line. -/
theorem render?_of_fits (h : c.Fits) :
    c.render? = some (String.ofList (Toml.document c.lines)) := by
  have both : (fits c.updateIntervalSecs && fits c.drainTimeoutSecs) = true := by
    rw [Bool.and_eq_true, fits_iff, fits_iff]
    exact h
  rw [render?, if_pos both]
  rfl

/-- What does not fit is not written. -/
theorem render?_of_not_fits (h : ¬ c.Fits) : c.render? = none := by
  have some' : ¬ (fits c.updateIntervalSecs && fits c.drainTimeoutSecs) = true := by
    rw [Bool.and_eq_true, fits_iff, fits_iff]
    exact h
  rw [render?, if_neg some']

/-- **Every line** can be read. -/
theorem sound_lines (h : c.Fits) : ∀ l ∈ c.lines, l.Sound := by
  have bound {n : Nat} (small : n ≤ 2 ^ 63 - 1) : n < Toml.integerBound := by
    rw [Toml.integerBound]
    omega
  have port : c.port.toNat ≤ 2 ^ 63 - 1 := by
    have := c.port.toNat_lt
    omega
  have named : ∀ name ∈ settingNames,
      name.toList ≠ [] ∧ name.toList.all Toml.isBare = true := by decide
  have sound {name : String} {value : List Char} {v : Toml} (known : name ∈ settingNames)
      (spells : Toml.Spells value v) : (Toml.Line.mk name value v).Sound :=
    ⟨(named name known).1, List.all_eq_true.1 (named name known).2, spells⟩
  simp only [lines, List.forall_mem_cons, List.not_mem_nil, false_implies, implies_true, and_true]
  exact ⟨sound (by decide) (Toml.spells_text _), sound (by decide) (Toml.spells_nat (bound port)),
    sound (by decide) (Toml.spells_nat (bound h.1)),
    sound (by decide) (Toml.spells_nat (bound h.2)), sound (by decide) (Toml.spells_text _),
    sound (by decide) (Toml.spells_text _)⟩

/-- A policy is read off its name. -/
theorem policy?_name (p : LimitPolicy) : policy? (.string p.name) = some p := by
  cases p <;> decide

/-- A number is read if it is below the bound. -/
theorem nat?_of_lt {n bound : Nat} (small : n < bound) : nat? bound (.integer n) = some n :=
  if_pos small

/-- The settings make the configuration again. -/
theorem ofFields?_fields (c : Configuration) : ofFields? (Toml.fields c.lines) = some c := by
  have port := nat?_of_lt c.port.toNat_lt
  have interval := nat?_of_lt c.updateIntervalSecs.toNat_lt
  have timeout := nat?_of_lt c.drainTimeoutSecs.toNat_lt
  have policy := policy?_name c.explainLimit
  have found (name : String) (v : Toml) (there : Toml.find? name (Toml.fields c.lines) = some v)
      {α : Type} (missing : α) (read? : Toml → Option α) :
      setting (Toml.fields c.lines) name missing read? = read? v := by rw [setting, there]
  rw [ofFields?, found "host" _ rfl, found "port" _ rfl, found "update_interval_secs" _ rfl,
    found "drain_timeout_secs" _ rfl, found "ontology_dir" _ rfl, found "explain_limit" _ rfl,
    port, interval, timeout, policy]
  simp [text?]

/-- What was written is read. -/
theorem parse?_render (h : c.Fits) :
    parse? (String.ofList (Toml.document c.lines)) = some c := by
  have distinct : (c.lines.map Toml.Line.name).Nodup := by
    show settingNames.Nodup
    decide
  rw [parse?, Toml.read_document (sound_lines h) distinct, Option.bind_some, ofFields?_fields]

/-- **What becomes of a configuration** that is saved and loaded. -/
structure Kept (c : Configuration) (k : Wording) (t : FileTree) (path : String) : Prop where
  /-- What fits is saved wherever the tree lets it be, and loaded again. -/
  restored : c.Fits → t.Admits path →
    (c.save k t path).1 = .ok () ∧ load k (c.save k t path).2 path = .ok c
  /-- If it cannot be saved, that is because of the files. -/
  blamed : c.Fits → ∀ e, (c.save k t path).1 = .error e → ∃ place io, e = .write place io
  /-- What does not fit is refused, and nothing is touched. -/
  refused : ¬ c.Fits → c.save k t path = (.error (.parse path (k.unwritten c)), t)

/-- **The law.** Every configuration is kept by every tree, wherever it is to be saved. -/
theorem kept (c : Configuration) (k : Wording) (t : FileTree) (path : String) :
    c.Kept k t path where
  restored fits admits := by
    obtain ⟨t', saved⟩ := admits.save (String.ofList (Toml.document c.lines)).toUTF8.toList
    rw [save, render?_of_fits fits]
    dsimp only
    rw [saved]
    refine ⟨rfl, ?_⟩
    rw [load, FileTree.read_save saved, ofFile, toUTF8_ofList, Utf8.decode?_encode]
    dsimp only
    rw [parse?_render fits]
  blamed fits e failed := by
    rw [save, render?_of_fits fits] at failed
    dsimp only at failed
    split at failed
    · cases failed
      exact ⟨_, _, rfl⟩
    · cases failed
  refused tooBig := by
    rw [save, render?_of_not_fits tooBig]

/-! ### Texts that have to be quoted -/

/-- A configuration with quotes, backslashes, line ends and control characters in its texts. -/
def quoted : Configuration :=
  { host := "\"a\\b\"\r\n\x01", ontologyDir := "C:\\data\n'''\\\"\"\"\t\x7f é"
    updateIntervalSecs := 2 ^ 63 - 1, explainLimit := .unbounded }

/-- A tree with a configuration in it. -/
def configured : FileTree :=
  { nodes := .ofList
      [([FileTree.octets "etc"], .directory),
        ([FileTree.octets "etc", FileTree.octets "schemad.toml"], .file [])]
    home := [FileTree.octets "etc"] }

/-- That tree admits a file in a directory that is not there yet. -/
theorem admits_configured : configured.Admits "/etc/schemad/schemad.toml" := by
  have absolute : "/etc/schemad/schemad.toml".startsWith "/" = true := by cbv
  have starts : configured.start "/etc/schemad/schemad.toml" = .ok [] := by
    rw [FileTree.start, if_pos absolute]
  have split : FileTree.pieces "/etc/schemad/schemad.toml"
      = [""] ++ ["etc", "schemad"] ++ ["schemad.toml"] := by decide
  have root : configured.node? [] = some .directory := rfl
  have above : configured.node? [FileTree.octets "etc"] = some .directory := by cbv
  have below : configured.node? [FileTree.octets "etc", FileTree.octets "schemad"] = none := by cbv
  have free : configured.isDirectory ([] ++ ["etc", "schemad"].map FileTree.octets
      ++ [FileTree.octets "schemad.toml"]) = false := by decide_cbv
  refine FileTree.admits_of_clear (by decide) (by decide) starts split (by decide) (by decide)
    (fun q front content => ?_) free
  have among : q = [] ∨ q = [FileTree.octets "etc"] ∨
      q = [FileTree.octets "etc", FileTree.octets "schemad"] := by
    simpa [List.inits] using (List.mem_inits _ _).2 front
  rcases among with rfl | rfl | rfl
  · exact FileTree.not_file_of_isDirectory (FileTree.isDirectory_iff.2 root) content
  · exact FileTree.not_file_of_isDirectory (FileTree.isDirectory_iff.2 above) content
  · rw [List.nil_append, below]
    exact (Option.some_ne_none _).symm

/-- The configuration is kept at a path from the root, and one with a number that is too great is
refused there. -/
theorem quoted_kept :
    ((quoted.save {} configured "/etc/schemad/schemad.toml").1 = .ok () ∧
      load {} (quoted.save {} configured "/etc/schemad/schemad.toml").2 "/etc/schemad/schemad.toml"
        = .ok quoted) ∧
    save { quoted with drainTimeoutSecs := 2 ^ 63 } {} configured "/etc/schemad.toml"
      = (.error (.parse "/etc/schemad.toml" "a number is out of range"), configured) :=
  have fits : quoted.Fits := by decide +kernel
  have tooBig : ¬ Fits { quoted with drainTimeoutSecs := 2 ^ 63 } := by decide +kernel
  ⟨(kept quoted {} configured "/etc/schemad/schemad.toml").restored fits admits_configured,
    (kept { quoted with drainTimeoutSecs := 2 ^ 63 } {} configured "/etc/schemad.toml").refused
      tooBig⟩

end Configuration

end OntologyService
