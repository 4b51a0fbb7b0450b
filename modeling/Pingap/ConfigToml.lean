import Pingap.ConfigReadBack

/-!
# The configuration as it is read back from its text

The gateway does not load the projection itself but the text it was committed as:
it reads the document, and every entry from its table. All of it comes back as it
was, except for sizes, which are written rounded.
-/

namespace ConfigToml

open ConfigIntent ConfigReadBack AList List Option

/-! ## Reading an entry -/

def asStrings (v : TomlValue) : Option (List String) := v.asArray.bind (List.mapM TomlValue.asStr)

/-- An unsigned integer of so many bits. -/
def asUnsigned (bits : Nat) (v : TomlValue) : Option Nat :=
  v.asInteger.bind fun n => if 0 ≤ n ∧ n < 2 ^ bits then some n.toNat else none

def asI32 (v : TomlValue) : Option Int :=
  v.asInteger.bind fun n => if -2 ^ 31 ≤ n ∧ n < 2 ^ 31 then some n else none

/-- A size: a text with its unit, or a number of bytes. -/
def asByteSize (f : Formats) : TomlValue → Option Nat
  | .string text => (f.parseSize text).toOption
  | .integer n => if 0 ≤ n then some n.toNat else none
  | _ => none

/-- A value that may be missing. It is an error when it is there and does not read. -/
def readOptional {α : Type} (read : TomlValue → Option α) : Option TomlValue → Option (Option α)
  | none => some none
  | some v => (read v).map some

def optional {α : Type} (read : TomlValue → Option α) (t : Table) (key : String) :
    Option (Option α) := readOptional read (t.lookup key)

def required {α : Type} (read : TomlValue → Option α) (t : Table) (key : String) : Option α :=
  (t.lookup key).bind read

def LocationConf.ofTable (f : Formats) (t : Table) : Option LocationConf := do
  let upstream ← optional TomlValue.asStr t "upstream"
  let path ← optional TomlValue.asStr t "path"
  let host ← optional TomlValue.asStr t "host"
  let weight ← optional (asUnsigned 16) t "weight"
  let plugins ← optional asStrings t "plugins"
  let clientMaxBodySize ← optional (asByteSize f) t "client_max_body_size"
  let maxProcessing ← optional asI32 t "max_processing"
  let grpcWeb ← optional TomlValue.asBool t "grpc_web"
  let enableReverseProxyHeaders ← optional TomlValue.asBool t "enable_reverse_proxy_headers"
  let maxRetries ← optional (asUnsigned 8) t "max_retries"
  let remark ← optional TomlValue.asStr t "remark"
  return { upstream, path, host, weight, plugins, clientMaxBodySize, maxProcessing, grpcWeb,
           enableReverseProxyHeaders, maxRetries, remark }

def ServerConf.ofTable (t : Table) : Option ServerConf := do
  let addr ← required TomlValue.asStr t "addr"
  let accessLog ← optional TomlValue.asStr t "access_log"
  let locations ← optional asStrings t "locations"
  let tlsCipherList ← optional TomlValue.asStr t "tls_cipher_list"
  let tlsCiphersuites ← optional TomlValue.asStr t "tls_ciphersuites"
  let tlsMinVersion ← optional TomlValue.asStr t "tls_min_version"
  let tlsMaxVersion ← optional TomlValue.asStr t "tls_max_version"
  let globalCertificates ← optional TomlValue.asBool t "global_certificates"
  let enabledH2 ← optional TomlValue.asBool t "enabled_h2"
  let modules ← optional asStrings t "modules"
  let enableServerTiming ← optional TomlValue.asBool t "enable_server_timing"
  return { addr, accessLog, locations, tlsCipherList, tlsCiphersuites, tlsMinVersion,
           tlsMaxVersion, globalCertificates, enabledH2, modules, enableServerTiming }

def UpstreamConf.ofTable (t : Table) : Option UpstreamConf := do
  let addrs ← required asStrings t "addrs"
  let algo ← optional TomlValue.asStr t "algo"
  let healthCheck ← optional TomlValue.asStr t "health_check"
  let discovery ← optional TomlValue.asStr t "discovery"
  let sni ← optional TomlValue.asStr t "sni"
  let verifyCert ← optional TomlValue.asBool t "verify_cert"
  return { addrs, algo, healthCheck, discovery, sni, verifyCert }

def CertificateConf.ofTable (t : Table) : Option CertificateConf := do
  let domains ← optional TomlValue.asStr t "domains"
  let tlsCert ← optional TomlValue.asStr t "tls_cert"
  let tlsKey ← optional TomlValue.asStr t "tls_key"
  let isDefault ← optional TomlValue.asBool t "is_default"
  let isCa ← optional TomlValue.asBool t "is_ca"
  let acme ← optional TomlValue.asStr t "acme"
  let dnsChallenge ← optional TomlValue.asBool t "dns_challenge"
  let dnsProvider ← optional TomlValue.asStr t "dns_provider"
  let dnsServiceUrl ← optional TomlValue.asStr t "dns_service_url"
  let bufferDays ← optional (asUnsigned 16) t "buffer_days"
  let remark ← optional TomlValue.asStr t "remark"
  return { domains, tlsCert, tlsKey, isDefault, isCa, acme, dnsChallenge, dnsProvider,
           dnsServiceUrl, bufferDays, remark }

/-! ## Entries come back -/

section entries

variable {α : Type}

theorem lookup_field (toValue : α → TomlValue) :
    (field key toValue o).lookup k = if k = key then o.map toValue else none := by
  cases o with
  | none => simp [field]
  | some a =>
    by_cases h : k = key
    · simp [field, h]
    · have hne : (k == key) = false := by simpa using h
      simp [field, lookup_cons, hne, h]

/-- A value that was written comes back, when it reads. -/
theorem readOptional_map {read : TomlValue → Option α}
    (hread : ∀ a, o = some a → read (toValue a) = some a) :
    readOptional read (o.map toValue) = some o := by
  cases o with
  | none => rfl
  | some a => simp [readOptional, hread a rfl]

theorem readOptional_string :
    readOptional TomlValue.asStr (o.map .string) = some o := readOptional_map fun _ _ => rfl

theorem readOptional_boolean :
    readOptional TomlValue.asBool (o.map .boolean) = some o := readOptional_map fun _ _ => rfl

theorem asStrings_strings : asStrings (strings l) = some l := by
  show (l.map TomlValue.string).mapM TomlValue.asStr = some l
  induction l with
  | nil => rfl
  | cons text rest ih => simp [mapM_cons, TomlValue.asStr, ih]

theorem readOptional_strings : readOptional asStrings (o.map strings) = some o :=
  readOptional_map fun _ _ => asStrings_strings

theorem readOptional_unsigned (h : ∀ n, o = some n → n < 2 ^ bits) :
    readOptional (asUnsigned bits) (o.map fun n : Nat => .integer n) = some o := by
  refine readOptional_map fun n hn => ?_
  have hrange : (0 : Int) ≤ n ∧ (n : Int) < 2 ^ bits := ⟨by omega, by exact_mod_cast h n hn⟩
  simp [asUnsigned, TomlValue.asInteger, hrange]

theorem readOptional_i32 (h : ∀ n, o = some n → -2 ^ 31 ≤ n ∧ n < 2 ^ 31) :
    readOptional asI32 (o.map .integer) = some o := by
  refine readOptional_map fun n hn => ?_
  simp only [asI32, TomlValue.asInteger, bind_some]
  exact if_pos (h n hn)

/-- The size of a location after it has been written and read. -/
def rereadSizes (f : Formats) : Option Nat → Option (Option Nat)
  | none => some none
  | some n => (f.parseSize (f.displaySize n)).toOption.map some

theorem readOptional_size :
    readOptional (asByteSize f) (o.map fun n => .string (f.displaySize n)) = rereadSizes f o := by
  cases o with
  | none | some => rfl

theorem rereadSizes_eq_self :
    rereadSizes f o = some o ↔ ∀ n, o = some n → f.parseSize (f.displaySize n) = .ok n := by
  cases o with
  | none => simp [rereadSizes]
  | some n =>
    simp only [rereadSizes, Option.some.injEq, forall_eq']
    cases f.parseSize (f.displaySize n) with
    | error | ok => simp [Except.toOption]

end entries

/-- The integers of a location are in the ranges of their types. -/
structure InRange (l : LocationConf) : Prop where
  weight : ∀ n, l.weight = some n → n < 2 ^ 16
  maxProcessing : ∀ n, l.maxProcessing = some n → -2 ^ 31 ≤ n ∧ n < 2 ^ 31
  maxRetries : ∀ n, l.maxRetries = some n → n < 2 ^ 8

/-- A location as it comes back: only its size can change. -/
def reread (f : Formats) (l : LocationConf) : Option LocationConf :=
  (rereadSizes f l.clientMaxBodySize).map fun size => { l with clientMaxBodySize := size }

theorem location_ofTable (hrange : InRange l) :
    LocationConf.ofTable f (l.toTable f) = reread f l := by
  simp only [LocationConf.ofTable, ConfigIntent.LocationConf.toTable, optional, lookup_append,
    lookup_field]
  simp [readOptional_string, readOptional_boolean, readOptional_strings,
    readOptional_unsigned hrange.weight, readOptional_unsigned hrange.maxRetries,
    readOptional_i32 hrange.maxProcessing, readOptional_size, reread]
  cases rereadSizes f l.clientMaxBodySize with
  | none | some => rfl

theorem reread_eq_self : reread f l = some l ↔
    ∀ n, l.clientMaxBodySize = some n → f.parseSize (f.displaySize n) = .ok n := by
  rw [← rereadSizes_eq_self, reread, map_eq_some_iff]
  constructor
  · rintro ⟨size, hsize, hl⟩
    rw [hsize, ← hl]
  · intro hsize
    exact ⟨_, hsize, rfl⟩

theorem server_ofTable : ServerConf.ofTable s.toTable = some s := by
  simp [ServerConf.ofTable, ConfigIntent.ServerConf.toTable, optional, required, lookup_append,
    lookup_field, lookup_cons, TomlValue.asStr, readOptional_string, readOptional_boolean,
    readOptional_strings]

theorem upstream_ofTable : UpstreamConf.ofTable u.toTable = some u := by
  simp [UpstreamConf.ofTable, ConfigIntent.UpstreamConf.toTable, optional, required,
    lookup_append, lookup_field, lookup_cons, asStrings_strings, readOptional_string,
    readOptional_boolean]

theorem certificate_ofTable (hrange : ∀ n, c.bufferDays = some n → n < 2 ^ 16) :
    CertificateConf.ofTable c.toTable = some c := by
  simp [CertificateConf.ofTable, ConfigIntent.CertificateConf.toTable, optional, lookup_append,
    lookup_field, readOptional_string, readOptional_boolean, readOptional_unsigned hrange]

/-! ## The document -/

inductive LoadError where
  | document
  | invalid (category name : String)
deriving DecidableEq, Repr

def category (t : Table) (key : String) : Except LoadError Table :=
  match t.lookup key with
  | none => .ok []
  | some (.table entries) => .ok entries
  | some _ => .error .document

/-- One entry. What is not a table reads as an empty one. -/
def readEntry {α : Type} (kind : String) (ofTable : Table → Option α) (row : String × TomlValue) :
    Except LoadError (String × α) :=
  match ofTable (row.2.asTable.getD []) with
  | some a => .ok (row.1, a)
  | none => .error (.invalid kind row.1)

def readEntries {α : Type} (kind : String) (ofTable : Table → Option α) (t : Table) (key : String) :
    Except LoadError (KeyedMap String α) := do
  let entries ← category t key
  let rows ← entries.mapM (readEntry kind ofTable)
  return AList.ofRows rows

def readBasic (t : Table) : Except LoadError (Option (List String)) := do
  let basic ← category t "basic"
  match optional asStrings basic "trusted_proxies" with
  | some proxies => return proxies
  | none => throw .document

def convertPingapConfig (f : Formats) (text : String) : Except LoadError PingapConfig :=
  match f.parseToml text with
  | none => .error .document
  | some t => do
    let trustedProxies ← readBasic t
    let upstreams ← readEntries "upstream" UpstreamConf.ofTable t "upstreams"
    let locations ← readEntries "location" (LocationConf.ofTable f) t "locations"
    let servers ← readEntries "server" ServerConf.ofTable t "servers"
    let plugins ← readEntries "plugin" some t "plugins"
    let certificates ← readEntries "certificate" CertificateConf.ofTable t "certificates"
    return { trustedProxies, upstreams, locations, servers, plugins, certificates }

/-! ## The document comes back -/

/-- The sections of a document that are not empty. -/
def sections (l : List (String × Table)) : Table :=
  (l.filter fun s => !s.2.isEmpty).map fun s => (s.1, .table s.2)

theorem lookup_sections_eq_none (h : key ∉ l.map Prod.fst) : (sections l).lookup key = none := by
  rw [lookup_eq_none_iff]
  intro entry hentry
  obtain ⟨s, hs, rfl⟩ := mem_map.mp hentry
  have hne : key ≠ s.1 := fun heq =>
    h (heq ▸ mem_map_of_mem (mem_filter.mp hs).1)
  simpa using hne

theorem lookup_sections (hnodup : (l.map Prod.fst).Nodup) (hmem : (key, t) ∈ l) :
    (sections l).lookup key = if t.isEmpty then none else some (.table t) := by
  induction l with
  | nil => cases hmem
  | cons s rest ih =>
    obtain ⟨hout, hrest⟩ := List.nodup_cons.mp hnodup
    have hcons : sections (s :: rest) =
        (if s.2.isEmpty then [] else [(s.1, .table s.2)]) ++ sections rest := by
      cases hempty : s.2.isEmpty <;> simp [sections, hempty]
    rw [hcons, lookup_append]
    rcases mem_cons.mp hmem with rfl | hmem
    · rw [lookup_sections_eq_none hout]
      cases t.isEmpty <;> simp
    have hne : (key == s.1) = false := by
      refine beq_false_of_ne fun heq => hout (heq ▸ mem_map_of_mem hmem)
    rw [ih hrest hmem]
    cases s.2.isEmpty <;> simp [lookup_cons, hne]

theorem category_eq {t entries : Table}
    (h : t.lookup key = if entries.isEmpty then none else some (.table entries)) :
    category t key = .ok entries := by
  rw [category, h]
  cases entries with
  | nil | cons => rfl

theorem readEntry_key (h : readEntry kind ofTable row = .ok out) : out.1 = row.1 := by
  rw [readEntry] at h
  split at h
  · cases h
    rfl
  · cases h

section entries

variable {α : Type} {kind : String} {ofTable : Table → Option α} {toTable : α → Table}
  {items : KeyedMap String α} {t : Table} {key : String}

/-- Reading the entry that was written for an item. -/
theorem readEntry_ok :
    readEntry kind ofTable (name, .table (toTable a)) = .ok (name, b) ↔
      ofTable (toTable a) = some b := by
  simp only [readEntry, TomlValue.asTable, getD_some]
  cases ofTable (toTable a) with
  | none | some => simp

theorem readEntries_eq (hlookup : t.lookup key = if (sortedTable toTable items).isEmpty then none
      else some (.table (sortedTable toTable items))) :
    readEntries kind ofTable t key = do
      let rows ← (inOrder items).mapM fun row =>
        readEntry kind ofTable (row.1, .table (toTable row.2))
      return ofRows rows := by
  rw [readEntries, category_eq hlookup]
  show ((sortedTable toTable items).mapM (readEntry kind ofTable) >>= _) = _
  rw [sortedTable, mapM_map]
  rfl

/-- A category is read exactly when every entry of it is. -/
theorem readEntries_reads (kind : String) (ofTable : Table → Option α)
    (hlookup : t.lookup key = if (sortedTable toTable items).isEmpty then none
      else some (.table (sortedTable toTable items))) :
    (∃ m, readEntries kind ofTable t key = .ok m) ↔
      ∀ name a, items.lookup name = some a → ∃ b, ofTable (toTable a) = some b := by
  have hrows : (∃ rows, ((inOrder items).mapM fun row =>
      readEntry kind ofTable (row.1, .table (toTable row.2))) = .ok rows) ↔
      ∀ name a, items.lookup name = some a → ∃ b, ofTable (toTable a) = some b := by
    rw [mapM_ok_iff]
    constructor
    · intro h name a ha
      obtain ⟨⟨name', b⟩, hb⟩ := h (name, a) (mem_inOrder.mpr ha)
      obtain rfl : name' = name := readEntry_key hb
      exact ⟨b, readEntry_ok.mp hb⟩
    · intro h row hrow
      obtain ⟨b, hb⟩ := h row.1 row.2 (mem_inOrder.mp hrow)
      exact ⟨(row.1, b), readEntry_ok.mpr hb⟩
  rw [← hrows, readEntries_eq hlookup]
  constructor
  · rintro ⟨m, hm⟩
    simp only [bind, Except.bind] at hm
    split at hm
    · cases hm
    · rename_i rows hrows
      exact ⟨rows, hrows⟩
  · rintro ⟨rows, h⟩
    exact ⟨ofRows rows, by simp only [bind, Except.bind, h]; rfl⟩

section

variable {m : KeyedMap String α} (hlookup : t.lookup key =
      if (sortedTable toTable items).isEmpty then none else
        some (.table (sortedTable toTable items)))
    (h : readEntries kind ofTable t key = .ok m)
include hlookup h

/-- A category that is read comes back entry by entry. -/
theorem readEntries_ok :
    m.lookup name = some b ↔ ∃ a, items.lookup name = some a ∧ ofTable (toTable a) = some b := by
  rw [readEntries_eq hlookup] at h
  simp only [bind, Except.bind] at h
  split at h
  · cases h
  rename_i rows hrows
  cases h
  have hkey : ∀ (row : String × α) out,
      readEntry kind ofTable (row.1, .table (toTable row.2)) = .ok out → out.1 = row.1 :=
    fun _ _ hrow => readEntry_key hrow
  rw [lookup_mapM hkey hrows]
  simp only [readEntry_ok]

/-- A category whose entries read as what they were written from. -/
theorem readEntries_same
    (hread : ∀ name a, items.lookup name = some a → ofTable (toTable a) = some a) (name : String) :
    m.lookup name = items.lookup name := by
  refine ext fun b => (readEntries_ok hlookup h).trans ?_
  constructor
  · rintro ⟨a, ha, hb⟩
    rw [hread name a ha] at hb
    rw [ha, hb]
  · exact fun hb => ⟨b, hb, hread name b hb⟩

end

end entries

section document

variable {f : Formats} {c : PingapConfig}

/-- The sections beside the basic one, before the empty ones are left out. -/
def categories (f : Formats) (c : PingapConfig) : List (String × Table) :=
  [("upstreams", sortedTable UpstreamConf.toTable c.upstreams),
    ("locations", sortedTable (ConfigIntent.LocationConf.toTable f) c.locations),
    ("servers", sortedTable ServerConf.toTable c.servers),
    ("plugins", sortedTable id c.plugins),
    ("certificates", sortedTable CertificateConf.toTable c.certificates)]

theorem lookup_document : ∀ entry ∈ categories f c, (document f c).lookup entry.1 =
    if entry.2.isEmpty then none else some (.table entry.2) := by
  rintro ⟨key, t⟩ hmem
  have hnodup : ((categories f c).map Prod.fst).Nodup := by
    simp [categories]
  have hbasic : (key == "basic") = false := by
    refine beq_false_of_ne fun heq => ?_
    simp [categories, heq] at hmem
  rw [← lookup_sections hnodup hmem]
  simp only [document, lookup_cons, hbasic]
  rfl

theorem readBasic_document : readBasic (document f c) = .ok c.trustedProxies := by
  have hproxies : optional asStrings (field "trusted_proxies" strings c.trustedProxies)
      "trusted_proxies" = some c.trustedProxies := by
    rw [optional, lookup_field, if_pos rfl]
    exact readOptional_strings
  have hbasic : category (document f c) "basic" =
      .ok (field "trusted_proxies" strings c.trustedProxies) := by
    simp [category, document]
  rw [readBasic, hbasic]
  simp only [bind, Except.bind, hproxies]
  rfl

/-- A configuration and what was loaded from its text: every entry is as it was, but
for the sizes of the locations. -/
structure ComesBack (f : Formats) (c loaded : PingapConfig) : Prop where
  proxies : loaded.trustedProxies = c.trustedProxies
  upstreams : ∀ name, loaded.upstreams.lookup name = c.upstreams.lookup name
  locations : ∀ name l', loaded.locations.lookup name = some l' ↔
    ∃ l, c.locations.lookup name = some l ∧ reread f l = some l'
  sizes : ∀ name l, c.locations.lookup name = some l → ∃ l', reread f l = some l'
  servers : ∀ name, loaded.servers.lookup name = c.servers.lookup name
  plugins : ∀ name, loaded.plugins.lookup name = c.plugins.lookup name
  certificates : ∀ name, loaded.certificates.lookup name = c.certificates.lookup name

/-- The integers of a configuration are in the ranges of their types. -/
structure ConfigInRange (c : PingapConfig) : Prop where
  locations : ∀ name l, c.locations.lookup name = some l → InRange l
  certificates : ∀ name conf, c.certificates.lookup name = some conf →
    ∀ n, conf.bufferDays = some n → n < 2 ^ 16

theorem convert_document (hread : f.parseToml text = some (document f c)) (hrange : ConfigInRange c)
    (h : convertPingapConfig f text = .ok loaded) : ComesBack f c loaded := by
  rw [convertPingapConfig, hread] at h
  simp only [bind, Except.bind, readBasic_document] at h
  split at h
  · cases h
  rename_i upstreams hupstreams
  split at h
  · cases h
  rename_i locations hlocations
  split at h
  · cases h
  rename_i servers hservers
  split at h
  · cases h
  rename_i plugins hplugins
  split at h
  · cases h
  rename_i certificates hcertificates
  cases h
  have hcategory := lookup_document (f := f) (c := c)
  simp only [categories, forall_mem_cons] at hcategory
  obtain ⟨hu, hl, hs, hp, hc, -⟩ := hcategory
  exact {
    proxies := rfl
    upstreams := readEntries_same hu hupstreams fun _ u _ => upstream_ofTable
    locations := fun name l' => by
      refine (readEntries_ok hl hlocations).trans ?_
      refine exists_congr fun l => and_congr_right fun hl => ?_
      rw [location_ofTable (hrange.locations name l hl)]
    sizes := fun name l hlookup => by
      rw [← location_ofTable (hrange.locations name l hlookup)]
      exact (readEntries_reads _ _ hl).mp ⟨locations, hlocations⟩ name l hlookup
    servers := readEntries_same hs hservers fun _ server _ => server_ofTable
    plugins := readEntries_same hp hplugins fun _ _ _ => rfl
    certificates := readEntries_same hc hcertificates fun name conf hconf =>
      certificate_ofTable (hrange.certificates name conf hconf) }

/-- The text of a configuration loads when its sizes read. -/
theorem convert_loads (hread : f.parseToml text = some (document f c)) (hrange : ConfigInRange c)
    (hsizes : ∀ name l, c.locations.lookup name = some l → ∃ l', reread f l = some l') :
    ∃ loaded, convertPingapConfig f text = .ok loaded := by
  have hcategory := lookup_document (f := f) (c := c)
  simp only [categories, forall_mem_cons] at hcategory
  obtain ⟨hu, hl, hs, hp, hc, -⟩ := hcategory
  obtain ⟨upstreams, hupstreams⟩ := (readEntries_reads "upstream" UpstreamConf.ofTable hu).mpr
    fun _ u _ => ⟨u, upstream_ofTable⟩
  obtain ⟨locations, hlocations⟩ := (readEntries_reads "location" (LocationConf.ofTable f) hl).mpr
    fun name l hl => by
      rw [location_ofTable (hrange.locations name l hl)]
      exact hsizes name l hl
  obtain ⟨servers, hservers⟩ := (readEntries_reads "server" ServerConf.ofTable hs).mpr
    fun _ server _ => ⟨server, server_ofTable⟩
  obtain ⟨plugins, hplugins⟩ := (readEntries_reads "plugin" some hp).mpr fun _ conf _ => ⟨conf, rfl⟩
  obtain ⟨certificates, hcertificates⟩ := (readEntries_reads "certificate" CertificateConf.ofTable
    hc).mpr fun name conf hconf =>
      ⟨conf, certificate_ofTable (hrange.certificates name conf hconf)⟩
  refine ⟨⟨c.trustedProxies, upstreams, locations, servers, plugins, certificates⟩, ?_⟩
  rw [convertPingapConfig, hread]
  simp only [bind, Except.bind, readBasic_document, hupstreams, hlocations, hservers, hplugins,
    hcertificates]
  rfl

theorem getWeight_reread (h : reread f l = some l') : getWeight l' = getWeight l := by
  obtain ⟨size, -, rfl⟩ := map_eq_some_iff.mp h
  rfl

/-- Nothing differs exactly when the key of no location has changed. -/
theorem ComesBack.mismatches (hback : ComesBack f p.config loaded) :
    runtimeMismatches h (DataPlane.running h loaded) p = [] ↔
      ∀ name l l', p.config.locations.lookup name = some l → reread f l = some l' →
        hashKey h l' = hashKey h l := by
  have hloaded : ∀ name l l', p.config.locations.lookup name = some l → reread f l = some l' →
      loaded.locations.lookup name = some l' := fun name l l' hl hl' =>
    (hback.locations name l').mpr ⟨l, hl, hl'⟩
  -- The weights, and with them the order of the routes, do not depend on sizes.
  have hweight : weightOf loaded.locations = weightOf p.config.locations := by
    funext location
    rw [weightOf, weightOf]
    cases hl : p.config.locations.lookup location with
    | none =>
      cases hl' : loaded.locations.lookup location with
      | none => rfl
      | some l' =>
        obtain ⟨l, hl'', -⟩ := (hback.locations location l').mp hl'
        rw [hl] at hl''
        cases hl''
    | some l =>
      obtain ⟨l', hl'⟩ := hback.sizes location l hl
      rw [hloaded location l l' hl hl', map_some, map_some, getWeight_reread hl']
  have hroutes : ∀ name, serverRouteLocations loaded name = serverRouteLocations p.config name := by
    have horder : byWeight loaded.locations = byWeight p.config.locations := by
      funext names
      rw [byWeight, byWeight, hweight]
    intro name
    rw [serverRouteLocations, serverRouteLocations, hback.servers, horder]
  rw [runtimeMismatches_eq_nil]
  constructor
  · rintro ⟨-, hlocations, -⟩ name l l' hl hl'
    have hkey : (loaded.locations.lookup name).map (hashKey h) = some (hashKey h l) :=
      hlocations name l hl
    rw [hloaded name l l' hl hl'] at hkey
    exact Option.some.inj hkey
  · intro hkeys
    refine ⟨fun name conf hconf => ?_, fun name l hl => ?_, fun name server _ => ?_⟩
    · show (loaded.plugins.lookup name).map (pluginConfigKey h) = _
      rw [hback.plugins, hconf, map_some]
    · obtain ⟨l', hl'⟩ := hback.sizes name l hl
      show (loaded.locations.lookup name).map (hashKey h) = _
      rw [hloaded name l l' hl hl', map_some, hkeys name l l' hl hl']
    · show (serverRouteLocations loaded name).getD [] = _
      rw [hroutes]

end document

/-! ## A faithful reload -/

/-- The integers of an intent are in the ranges of their types. -/
structure Typed (intent : Intent) : Prop where
  priority : ∀ name d n, intent.domains.lookup name = some d → d.priority = some n → n < 2 ^ 16
  maxProcessing : ∀ name d n, intent.domains.lookup name = some d → d.maxProcessing = some n →
    -2 ^ 31 ≤ n ∧ n < 2 ^ 31
  maxRetries : ∀ name d n, intent.domains.lookup name = some d → d.maxRetries = some n → n < 2 ^ 8
  bufferDays : ∀ name c n, intent.certificates.lookup name = some c → c.bufferDays = some n →
    n < 2 ^ 16

/-- The size of every domain is one that survives being written and read. -/
def SizesExact (f : Formats) (intent : Intent) : Prop :=
  ∀ name d text n, intent.domains.lookup name = some d → d.clientMaxBodySize = some text →
    f.parseSize text = .ok n → f.parseSize (f.displaySize n) = .ok n

theorem certificateConf_made (h : certificateConf name c = .ok conf) :
    conf.bufferDays = c.bufferDays ∧
      conf.domains = if c.domains.isEmpty then none else some (",".intercalate c.domains) := by
  simp only [certificateConf, bind, Except.bind, pure, Except.pure, throw, throwThe,
    MonadExceptOf.throw] at h
  split at h
  · cases h
  split at h
  · cases h
  · cases h
    exact ⟨rfl, rfl⟩

/-- A location of a projection, with the domain it was made from. -/
theorem location_domain (h : Generated f intent p) (hl : p.config.locations.lookup name = some l) :
    ∃ d, intent.domains.lookup name = some d ∧ locationConf f name d = .ok l := by
  obtain ⟨d, hd, hproject⟩ := (h.locations name l).mp hl
  exact ⟨d, hd, projectDomain_location hproject⟩

theorem parseBodySize_some :
    parseBodySize f name o = .ok (some n) ↔ ∃ text, o = some text ∧ f.parseSize text = .ok n := by
  cases o with
  | none => simp [parseBodySize]
  | some text =>
    simp only [parseBodySize]
    cases hparse : f.parseSize text with
    | error | ok => simp [hparse]

theorem configInRange_of_typed (h : Generated f intent p) (htyped : Typed intent) :
    ConfigInRange p.config := by
  refine ⟨fun name l hl => ?_, fun name conf hconf n hn => ?_⟩
  · obtain ⟨d, hd, hconf⟩ := location_domain h hl
    obtain ⟨-, -, -, hweight, hprocessing, hretries, -⟩ := locationConf_made hconf
    exact ⟨fun n hn => htyped.priority name d n hd (hweight ▸ hn),
      fun n hn => htyped.maxProcessing name d n hd (hprocessing ▸ hn),
      fun n hn => htyped.maxRetries name d n hd (hretries ▸ hn)⟩
  · obtain ⟨c, hc, hmake⟩ := (h.certificates name conf).mp hconf
    exact htyped.bufferDays name c n hc ((certificateConf_made hmake).1 ▸ hn)

/-- The sizes are exact when every location of the projection comes back as it was. -/
theorem sizesExact_iff (h : Generated f intent p) :
    SizesExact f intent ↔ ∀ name l, p.config.locations.lookup name = some l →
      reread f l = some l := by
  constructor
  · intro hexact name l hl
    obtain ⟨d, hd, hconf⟩ := location_domain h hl
    refine reread_eq_self.mpr fun n hn => ?_
    have hbody := (locationConf_made hconf).2.1
    rw [hn] at hbody
    obtain ⟨text, htext, hparse⟩ := parseBodySize_some.mp hbody
    exact hexact name d text n hd htext hparse
  · intro hsame name d text n hd htext hn
    obtain ⟨l, hproject⟩ := h.domains name d hd
    have hl := (h.locations name l).mpr ⟨d, hd, hproject⟩
    have hbody := (locationConf_made (projectDomain_location hproject)).2.1
    rw [parseBodySize_some.mpr ⟨text, htext, hn⟩] at hbody
    exact reread_eq_self.mp (hsame name l hl) n (Except.ok.inj hbody).symm

/-- If every size survives being written and read, the committed text loads and the
gateway that has loaded it is found to run the projection; and where the keys of
locations tell them apart, only then. -/
theorem faithful_reload_verifies_iff (f : Formats) (h : Hashes) (intent : Intent)
    (htyped : Typed intent) (p : Projected) (hgenerate : generate f intent = .ok p)
    (hread : f.parseToml p.toml = some (document f p.config)) :
    (SizesExact f intent → ∃ loaded, convertPingapConfig f p.toml = .ok loaded ∧
      runtimeMismatches h (DataPlane.running h loaded) p = []) ∧
    ∀ loaded, convertPingapConfig f p.toml = .ok loaded → Separated h loaded p.config →
      runtimeMismatches h (DataPlane.running h loaded) p = [] → SizesExact f intent := by
  have hmade := generated_of_generate hgenerate
  have hrange := configInRange_of_typed hmade htyped
  refine ⟨fun hexact => ?_, fun loaded hloaded hsep hnothing => ?_⟩
  · have hsame := (sizesExact_iff hmade).mp hexact
    have hsizes : ∀ name l, p.config.locations.lookup name = some l →
        ∃ l', reread f l = some l' := fun name l hl => ⟨l, hsame name l hl⟩
    obtain ⟨loaded, hloaded⟩ := convert_loads hread hrange hsizes
    refine ⟨loaded, hloaded, ?_⟩
    refine (convert_document hread hrange hloaded).mismatches.mpr fun name l l' hl hl' => ?_
    rw [hsame name l hl] at hl'
    rw [Option.some.inj hl']
  · have hback := convert_document hread hrange hloaded
    refine (sizesExact_iff hmade).mpr fun name l hl => ?_
    obtain ⟨l', hl'⟩ := hback.sizes name l hl
    have hkey : hashKey h l' = hashKey h l := hback.mismatches.mp hnothing name l l' hl hl'
    rw [hl', hsep.locations name l' l ((hback.locations name l').mpr ⟨l, hl, hl'⟩) hl hkey]

/-! ## Sizes as they are written

A size is written with one decimal in the largest unit it fills, and read by
multiplying and truncating. -/

def sizeUnits : List (String × Nat) :=
  [("EiB", 2 ^ 60), ("PiB", 2 ^ 50), ("TiB", 2 ^ 40), ("GiB", 2 ^ 30), ("MiB", 2 ^ 20),
    ("KiB", 2 ^ 10), ("B", 1)]

/-- So many tenths of a unit, a half going to the even one. -/
def tenths (n unit : Nat) : Nat :=
  let q := 10 * n / unit
  let r := 10 * n % unit
  if unit < 2 * r ∨ (unit = 2 * r ∧ q % 2 = 1) then q + 1 else q

def displaySize (n : Nat) : String :=
  match sizeUnits.find? fun u => u.2 ≤ n with
  | some (_, 1) | none => toString n ++ " B"
  | some (name, unit) =>
    toString (tenths n unit / 10) ++ "." ++ toString (tenths n unit % 10) ++ " " ++ name

/-- A decimal number as its digits and the power of ten they are divided by. -/
def decimal (text : List Char) : Option (Nat × Nat) :=
  match Text.splitOnce '.' text with
  | none => (Text.parseU64 text).map fun n => (n, 1)
  | some (whole, fraction) =>
    (Text.parseU64 (whole ++ fraction)).map fun n => (n, 10 ^ fraction.length)

/-- Units as they are read, in any case. -/
def unitNames : List (String × Nat) :=
  [("", 1), ("b", 1), ("kb", 10 ^ 3), ("mb", 10 ^ 6), ("gb", 10 ^ 9), ("tb", 10 ^ 12),
    ("pb", 10 ^ 15), ("eb", 10 ^ 18), ("kib", 2 ^ 10), ("mib", 2 ^ 20), ("gib", 2 ^ 30),
    ("tib", 2 ^ 40), ("pib", 2 ^ 50), ("eib", 2 ^ 60)]

def parseSize (text : String) : Except String Nat :=
  let number := text.toList.takeWhile fun c => c.isDigit || c == '.'
  let unit := (text.toList.drop number.length).dropWhile (· == ' ')
  match decimal number, unitNames.lookup (String.ofList (Text.toAsciiLowercase unit)) with
  | some (digits, scale), some unit => .ok (digits * unit / scale)
  | _, _ => .error ("couldn't parse " ++ text)

/-! ## Plain documents

The text of documents of two levels whose strings need no escapes. -/

def printValue : TomlValue → String
  | .string text => "\"" ++ text ++ "\""
  | .integer n => toString n
  | .boolean b => toString b
  | .array items => "[" ++ ", ".intercalate (items.filterMap fun v =>
      v.asStr.map fun text => "\"" ++ text ++ "\"") ++ "]"
  | _ => ""

def printLine (entry : String × TomlValue) : String := entry.1 ++ " = " ++ printValue entry.2

/-- A section, or an entry of it under a header of its own. -/
def printSection (row : String × TomlValue) : List String :=
  ("[" ++ row.1 ++ "]") :: (row.2.asTable.getD []).flatMap fun entry =>
    match entry.2 with
    | .table fields => ("[" ++ row.1 ++ "." ++ entry.1 ++ "]") :: fields.map printLine
    | _ => [printLine entry]

def printDocument (t : Table) : String := "\n".intercalate (t.flatMap printSection)

def unquote (text : List Char) : String := String.ofList ((text.drop 1).dropLast)

def parseValue (text : List Char) : TomlValue :=
  match text with
  | '"' :: _ => .string (unquote text)
  | '[' :: items =>
    .array (((items.dropLast.splitOn ',').map fun item => item.dropWhile (· == ' ')).filterMap
      fun item => if item.isEmpty then none else some (.string (unquote item)))
  | _ => if text = "true".toList then .boolean true else if text = "false".toList then .boolean false
    else .integer ((Text.parseU64 text).getD 0)

/-- What has been read: the finished sections, the open one and its open entry. -/
structure Reader where
  sections : Table
  section_ : Option (String × Table)
  entry : Option (String × Table)

def Reader.closeEntry (r : Reader) : Reader :=
  match r.section_, r.entry with
  | some (name, entries), some (key, fields) =>
    ⟨r.sections, some (name, entries ++ [(key, .table fields)]), none⟩
  | _, _ => r

def Reader.closeSection (r : Reader) : Reader :=
  match r.closeEntry.section_ with
  | some (name, entries) => ⟨r.sections ++ [(name, .table entries)], none, none⟩
  | none => r

def Reader.line (r : Reader) (text : List Char) : Reader :=
  match text with
  | '[' :: header =>
    match Text.splitOnce '.' header.dropLast with
    | some (_, key) => { r.closeEntry with entry := some (String.ofList key, []) }
    | none => { r.closeSection with section_ := some (String.ofList header.dropLast, []) }
  | _ =>
    match Text.splitOnce '=' text with
    | none => r
    | some (key, value) =>
      let field := (String.ofList key.dropLast, parseValue (value.drop 1))
      match r.entry, r.section_ with
      | some (name, fields), _ => { r with entry := some (name, fields ++ [field]) }
      | none, some (name, entries) => { r with section_ := some (name, entries ++ [field]) }
      | none, none => r

def parseDocument (text : String) : Table :=
  ((text.toList.splitOn '\n').foldl Reader.line ⟨[], none, none⟩).closeSection.sections

def plainText : Formats where
  parseSize := parseSize
  displaySize := displaySize
  printToml t := .ok (printDocument t)
  parseToml text := some (parseDocument text)

/-- Locations are told apart by their size. -/
def sizeHashes : Hashes where
  crc32 text := text.length
  displayValue := printValue
  locationHash l := l.clientMaxBodySize.getD 0
  debugList names := "[" ++ ", ".intercalate names ++ "]"

/-- One domain with the given limit of request bodies. -/
def uploads (size : String) : Intent :=
  { Intent.empty with
    upstreams := AList.ofRows [("app", ⟨[⟨"10.0.0.1:80", none⟩], none, none, none, none, none⟩)]
    listeners := AList.ofRows [("web", ⟨"0.0.0.0:80", none, none, none, none⟩)]
    domains := AList.ofRows [("site", ⟨["a.test"], some "/", "web", "app", none, none, some size,
      false, none, none, none, []⟩)] }

example : parseSize "8mb" = .ok 8000000 ∧ displaySize 8000000 = "7.6 MiB" ∧
    parseSize "7.6 MiB" = .ok 7969177 := by decide +kernel

theorem domains_uploads {size name : String} (h : (uploads size).domains.lookup name = some d) :
    d.clientMaxBodySize = some size ∧ d.priority = none ∧ d.maxProcessing = none ∧
      d.maxRetries = none := by
  obtain ⟨-, rfl⟩ := lookup_ofRows_singleton.mp h
  exact ⟨rfl, rfl, rfl, rfl⟩

theorem typed_uploads {size : String} : Typed (uploads size) where
  priority name d n hd hn := by rw [(domains_uploads hd).2.1] at hn; cases hn
  maxProcessing name d n hd hn := by rw [(domains_uploads hd).2.2.1] at hn; cases hn
  maxRetries name d n hd hn := by rw [(domains_uploads hd).2.2.2] at hn; cases hn
  bufferDays name c n hc _ := by cases (lookup_empty name).symm.trans hc

/-- The projection of the sample, and nothing in its place. -/
def uploadsProjected (size : String) : Projected :=
  match generate plainText (uploads size) with
  | .ok p => p
  | .error _ => ⟨⟨none, ∅, ∅, ∅, ∅, ∅⟩, ""⟩

/-- A limit of 1.5 MiB verifies. -/
theorem faithful_reload_verifies_iff_exact : ∃ loaded,
    convertPingapConfig plainText (uploadsProjected "1.5 MiB").toml = .ok loaded ∧
      runtimeMismatches sizeHashes (DataPlane.running sizeHashes loaded)
        (uploadsProjected "1.5 MiB") = [] := by
  have hgenerate : generate plainText (uploads "1.5 MiB") = .ok (uploadsProjected "1.5 MiB") := by
    have hok : (generate plainText (uploads "1.5 MiB")).toBool = true := by decide +kernel
    rw [uploadsProjected]
    revert hok
    cases generate plainText (uploads "1.5 MiB") with
    | error e => intro hok; cases hok
    | ok p => exact fun _ => rfl
  have hread : plainText.parseToml (uploadsProjected "1.5 MiB").toml =
      some (document plainText (uploadsProjected "1.5 MiB").config) := by decide +kernel
  have hexact : SizesExact plainText (uploads "1.5 MiB") := by
    intro name d text n hd htext hn
    rw [(domains_uploads hd).1] at htext
    cases htext
    have hparse : parseSize "1.5 MiB" = .ok 1572864 := by decide +kernel
    obtain rfl : 1572864 = n := Except.ok.inj (hparse.symm.trans hn)
    show parseSize (displaySize 1572864) = .ok 1572864
    decide +kernel
  exact (faithful_reload_verifies_iff plainText sizeHashes (uploads "1.5 MiB") typed_uploads
    (uploadsProjected "1.5 MiB") hgenerate hread).1 hexact

/-- The limit before and after, and what the read-back reports. -/
def verification (size : String) : Option (Option Nat × Option Nat × List String) :=
  (generate plainText (uploads size)).toOption.bind fun p =>
    (convertPingapConfig plainText p.toml).toOption.map fun loaded =>
      ((p.config.locations.lookup "site").bind LocationConf.clientMaxBodySize,
        (loaded.locations.lookup "site").bind LocationConf.clientMaxBodySize,
        runtimeMismatches sizeHashes (DataPlane.running sizeHashes loaded) p)

/-- A limit of 8 MB is written as 7.6 MiB and read as 7969177 bytes: the gateway that
has loaded the text is taken to run an older configuration. -/
theorem rounded_size_never_verifies : verification "8mb" = some (some 8000000, some 7969177,
    ["location `site` is running an older config (799999, expected 7a1200)"]) := by
  decide +kernel

end ConfigToml
