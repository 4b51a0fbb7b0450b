import Pingap.ConfigReferences

/-!
# Reading the encodings of a generated configuration

A backend is written as its address and its weight with a blank between them, a list of names
with commas. Neither is checked for what separates it.
-/

namespace ConfigEncodings

open ConfigIntent AList List Text ConfigReferences ConfigToml

theorem not_of_mem_splitOnP {xs : List α} (h : part ∈ xs.splitOnP p) : ∀ x ∈ part, p x = false := by
  induction xs generalizing part with
  | nil =>
    obtain rfl := mem_singleton.mp h
    exact fun x hx => absurd hx not_mem_nil
  | cons y ys ih =>
    rw [splitOnP_cons_eq_if_modifyHead] at h
    split at h
    · rcases mem_cons.mp h with rfl | h
      · exact fun x hx => absurd hx not_mem_nil
      · exact ih h
    case isFalse hy =>
      cases hparts : ys.splitOnP p with
      | nil => exact absurd hparts (splitOnP_ne_nil p ys)
      | cons first rest =>
        rw [hparts, modifyHead_cons] at h
        rcases mem_cons.mp h with rfl | h
        · intro x hx
          rcases mem_cons.mp hx with rfl | hx
          · exact eq_false_of_ne_true hy
          · exact ih (hparts ▸ mem_cons_self) x hx
        · exact ih (hparts ▸ mem_cons_of_mem _ h)

/-! ## Addresses -/

/-- `split_whitespace`. -/
def words (text : String) : List String :=
  ((text.toList.splitOnP isWhitespace).filter (!·.isEmpty)).map String.ofList

/-- What is to be read of a backend. -/
def fields (b : Backend) : List String := b.addr :: b.weight.toList.map toString

def Word (text : String) : Prop := text ≠ "" ∧ ∀ c ∈ text.toList, isWhitespace c = false

theorem word_of_mem_words (h : text ∈ words line) : Word text := by
  obtain ⟨part, hpart, rfl⟩ := mem_map.mp h
  obtain ⟨hsplit, hne⟩ := mem_filter.mp hpart
  refine ⟨fun hempty => ?_, by rw [String.toList_ofList]; exact not_of_mem_splitOnP hsplit⟩
  rw [← String.toList_eq_nil_iff, String.toList_ofList] at hempty
  rw [hempty] at hne
  cases hne

theorem Word.filter (h : Word text) (rest : List (List Char)) :
    (text.toList :: rest).filter (!·.isEmpty) = text.toList :: rest.filter (!·.isEmpty) := by
  refine filter_cons_of_pos ?_
  have hne : text.toList ≠ [] := fun hempty => h.1 (String.toList_eq_nil_iff.mp hempty)
  simpa using hne

theorem Word.splitOnP (h : Word text) : text.toList.splitOnP isWhitespace = [text.toList] :=
  splitOnP_eq_singleton fun c hc => h.2 c hc

theorem word_toString (n : Nat) : Word (toString n) := by
  refine ⟨fun hempty => ?_, fun c hc => ?_⟩
  · exact absurd hempty (by simp [toString, Nat.repr_ne_empty])
  · exact isWhitespace_of_isAlphanum (by simp [Char.isAlphanum, isDigit_of_mem_toString hc])

/-- The fields of a backend are read from its line exactly if its address is one word. -/
theorem words_addr_iff :
    words (match b.weight with
      | some w => b.addr ++ " " ++ toString w
      | none => b.addr) = fields b ↔ Word b.addr := by
  refine ⟨fun h => word_of_mem_words (by rw [h]; exact mem_cons_self), fun h => ?_⟩
  obtain ⟨addr, weight⟩ := b
  cases weight with
  | none =>
    rw [words, h.splitOnP, h.filter]
    simp [fields]
  | some w =>
    have hline : (addr ++ " " ++ toString w).toList = addr.toList ++ ' ' :: (toString w).toList := by
      simp
    rw [words, hline, splitOnP_append_cons_of_forall_mem h.2 _ (by decide),
      (word_toString w).splitOnP, h.filter, (word_toString w).filter, map_cons, map_cons,
      String.ofList_toList, String.ofList_toList]
    rfl

/-! ## Lists of names -/

/-- `split(',')` and `trim`. -/
def items : Option String → List String
  | none => []
  | some text => (text.toList.splitOn ',').map fun part => String.ofList (trim part)

def Item (text : String) : Prop := ',' ∉ text.toList ∧ trim text.toList = text.toList

theorem items_join_iff :
    items (if names.isEmpty then none else some (",".intercalate names)) = names ↔
      ∀ name ∈ names, Item name := by
  cases names with
  | nil => exact ⟨fun _ _ h => absurd h not_mem_nil, fun _ => rfl⟩
  | cons first rest =>
    simp only [isEmpty_cons, Bool.false_eq_true, if_false, items, String.toList_intercalate]
    constructor
    · intro h name hname
      rw [← h] at hname
      obtain ⟨part, hpart, rfl⟩ := mem_map.mp hname
      rw [Item, String.toList_ofList]
      refine ⟨fun hcomma => ?_, trim_idem⟩
      have hmem : ',' ∈ part :=
        (dropWhile_suffix _).subset (mem_reverse.mp ((dropWhile_suffix _).subset (mem_reverse.mp hcomma)))
      have hnot := not_of_mem_splitOnP hpart ',' hmem
      cases hnot
    · intro h
      have hsplit : (",".toList.intercalate ((first :: rest).map String.toList)).splitOn ',' =
          (first :: rest).map String.toList := by
        refine splitOn_intercalate ',' (fun l hl => ?_) (by simp)
        obtain ⟨name, hname, rfl⟩ := mem_map.mp hl
        exact (h name hname).1
      rw [hsplit, map_map]
      refine (map_congr_left fun name hname => ?_).trans (map_id _)
      simp [(h name hname).2]

/-! ## The generated configuration -/

/-- Every string gives back what it was made from. -/
def ReadsBack (intent : Intent) (config : PingapConfig) : Prop :=
  (∀ name u conf, intent.upstreams.lookup name = some u →
    config.upstreams.lookup name = some conf → conf.addrs.map words = u.backends.map fields) ∧
  (∀ name d l, intent.domains.lookup name = some d →
    config.locations.lookup name = some l → items l.host = d.hostnames) ∧
  ∀ name c conf, intent.certificates.lookup name = some c →
    config.certificates.lookup name = some conf → items conf.domains = c.domains

/-- No address holds a blank and no name a comma or an outer blank. -/
def Unambiguous (intent : Intent) : Prop :=
  (∀ name u, intent.upstreams.lookup name = some u → ∀ b ∈ u.backends, Word b.addr) ∧
  (∀ name d, intent.domains.lookup name = some d → ∀ host ∈ d.hostnames, Item host) ∧
  ∀ name c, intent.certificates.lookup name = some c → ∀ host ∈ c.domains, Item host

/-- What holds between the rows of two maps of the same names, where it only depends on the first. -/
theorem forall_lookup_iff {m : KeyedMap String υ} {out : KeyedMap String ω} {P : υ → ω → Prop}
    {Q : υ → Prop}
    (hout : ∀ name v, m.lookup name = some v → ∃ w, out.lookup name = some w ∧ (P v w ↔ Q v)) :
    (∀ name v w, m.lookup name = some v → out.lookup name = some w → P v w) ↔
      ∀ name v, m.lookup name = some v → Q v := by
  refine ⟨fun h name v hv => ?_, fun h name v w hv hw => ?_⟩
  · obtain ⟨w, hw, hiff⟩ := hout name v hv
    exact hiff.mp (h name v w hv hw)
  obtain ⟨w', hw', hiff⟩ := hout name v hv
  obtain rfl : w = w' := Option.some.inj (hw.symm.trans hw')
  exact hiff.mpr (h name v hv)

/-- What a generated configuration spells in one string reads back as the values of the intent
exactly when none of them holds what separates them there. -/
theorem reads_back_iff {f : Formats} {intent : Intent} {p : Projected}
    (h : generate f intent = .ok p) : ReadsBack intent p.config ↔ Unambiguous intent := by
  have hgen := generated_of_generate h
  refine and_congr (forall_lookup_iff fun name u hu => ?_) (and_congr
    (forall_lookup_iff fun name d hd => ?_) (forall_lookup_iff fun name c hc => ?_))
  · refine ⟨upstreamConf u, by rw [lookup_upstreams h, hu]; rfl, ?_⟩
    rw [upstreamConf, map_map, map_inj_left]
    exact forall₂_congr fun b _ => words_addr_iff
  · obtain ⟨l, hl⟩ := hgen.domains name d hd
    obtain ⟨-, -, -, -, -, -, -, hhost⟩ := locationConf_made (projectDomain_location hl)
    refine ⟨l, (hgen.locations name l).mpr ⟨d, hd, hl⟩, ?_⟩
    rw [hhost]
    exact items_join_iff
  · obtain ⟨_, _, _, _, -, -, hcerts, -, -, hconfig⟩ := generate_ok h
    obtain ⟨conf, hconf⟩ := exists_lookup_mapM
      (fun _ _ hout => (projectCertificate_ok.mp hout).1) hcerts hc
    have hfound : p.config.certificates.lookup name = some conf := by rw [hconfig]; exact hconf
    obtain ⟨c', hc', hmade⟩ := (hgen.certificates name conf).mp hfound
    obtain rfl : c = c' := Option.some.inj (hc.symm.trans hc')
    refine ⟨conf, hfound, ?_⟩
    rw [(certificateConf_made hmade).2]
    exact items_join_iff

theorem reads_back_iff_guarded : ∃ p, generate plainText guardedIntent = .ok p ∧
    ReadsBack guardedIntent p.config := by
  obtain ⟨p, hp⟩ := guarded_generates
  refine ⟨p, hp, (reads_back_iff hp).mpr
    ⟨fun name u hu => ?_, fun name d hd => ?_, fun name c hc => ?_⟩⟩
  · obtain ⟨-, rfl⟩ := lookup_ofRows_singleton.mp hu
    intro b hb
    obtain rfl := mem_singleton.mp hb
    have hall : ("10.0.0.1:80".toList.all fun c => !isWhitespace c) = true := by decide +kernel
    exact ⟨by decide +kernel, fun c hc => by simpa using all_eq_true.mp hall c hc⟩
  · obtain ⟨-, rfl⟩ := lookup_ofRows_singleton.mp hd
    intro host hhost
    obtain rfl := mem_singleton.mp hhost
    exact ⟨by decide +kernel, by decide +kernel⟩
  · cases (lookup_empty name).symm.trans hc

/-- A domain with these names. -/
def named (hostnames : List String) : Intent :=
  { ConfigToml.uploads "8mb" with
    domains := ofRows [("site", { guardedDomain with hostnames, policies := [] })] }

/-- One name with a comma in it and two names give one string. -/
theorem comma_in_hostname :
    ((generate plainText (named ["a.test,b.test"])).toOption.map (·.toml)).isSome ∧
      (generate plainText (named ["a.test,b.test"])).toOption.map (·.toml) =
        (generate plainText (named ["a.test", "b.test"])).toOption.map (·.toml) := by
  decide +kernel

end ConfigEncodings
