import HttpFile.Proofs.Source.Work
import HttpFile.Source.OpenApi.Convert

/-!
# `HttpFile.Proofs.Source.Fanout` — one specification, a document for each server

The documents of a specification differ in the server only. What an operation says is read once more for
each server, so the first step is that reading it again gives the same: the notes made in between do not
count. Then every document is made from one list of calls, one for each operation, by putting the variable
of its server in front of the paths and the comments of its server in front of the comments.

## Contents
- **Blindness.** `blind_resolve`, `blind_bodyOf`, `blind_mergeParameters`.
- **Operations.** `Site`, `sites`: where the operations of a specification stand.
- **Calls.** `Call` with `Call.bare` and `Call.under`; `Call.Of`, which an operation fixes (`calls_unique`).
- **Blocks.** `block_of_operation`, `blocks_of_paths`.
- **Servers.** `isServer`, `Declares`, `Documents`; `documents_of_servers`.
- **Documents.** `documents_of_paths`.
- **Main result.** `documents_fanout`, and an example.
-/

namespace HttpFile.Source.OpenApi

open Text

/-! ## Blindness -/

theorem blind_resolveWithin (spec : Value) (links : Nat) (node : Value) :
    (resolveWithin spec links node).Blind := by
  induction links generalizing node with
  | zero =>
      unfold resolveWithin
      split
      · exact blind_pure _
      · exact blind_lacking _
  | succ links ih =>
      unfold resolveWithin
      split
      · exact blind_pure _
      · dsimp only
        split
        · split
          · exact blind_lacking _
          · exact ih _
        · exact blind_bind (blind_warn _) fun _ => blind_pure _

theorem blind_resolve (spec node : Value) : (resolve spec node).Blind := blind_resolveWithin spec _ node

theorem blind_exampleOfProperties (spec : Value) (properties : List (Value × Value)) :
    (exampleOfProperties spec properties).Blind := by
  induction properties with
  | nil => exact blind_pure _
  | cons entry properties ih =>
      unfold exampleOfProperties
      refine blind_bind (blind_resolve _ _) fun property => ?_
      refine blind_bind (blind_misfit _) fun value => ?_
      exact blind_bind ih fun more => blind_pure _

theorem blind_firstExample (spec : Value) (candidates : List (Value × Value)) :
    (firstExample spec candidates).Blind := by
  induction candidates with
  | nil => exact blind_pure _
  | cons candidate candidates ih =>
      unfold firstExample
      refine blind_bind (blind_resolve _ _) fun found => ?_
      split
      · exact blind_pure _
      · exact ih

theorem blind_exampleOfSchema (spec schema : Value) : (exampleOfSchema spec schema).Blind := by
  unfold exampleOfSchema
  refine blind_bind (blind_misfit _) fun properties => ?_
  refine blind_bind (blind_misfit _) fun entries => ?_
  exact blind_bind (blind_exampleOfProperties _ _) fun _ => blind_pure _

theorem blind_exampleBody (spec media : Value) : (exampleBody spec media).Blind := by
  unfold exampleBody
  refine blind_bind (blind_misfit _) fun here => ?_
  split
  · split
    · exact blind_bind (blind_misfit _) fun _ => blind_pure _
    · exact blind_throw _
  · refine blind_bind (blind_misfit _) fun examples => ?_
    extract_lets afterExamples
    have hafter : ∀ given, (afterExamples given).Blind := by
      intro given
      cases given with
      | some v => exact blind_bind (blind_misfit _) fun _ => blind_pure _
      | none =>
          refine blind_bind (blind_misfit _) fun node => ?_
          refine blind_bind (blind_resolve _ _) fun schema => ?_
          split
          · refine blind_bind (blind_exampleOfSchema _ _) fun value => ?_
            exact blind_bind (blind_misfit _) fun _ => blind_pure _
          · exact blind_pure _
    split
    · exact blind_bind (blind_firstExample _ _) hafter
    · exact blind_bind (blind_pure _) hafter

theorem blind_bodyOf (spec operation : Value) : (bodyOf spec operation).Blind := by
  unfold bodyOf
  refine blind_bind (blind_resolve _ _) fun requestBody => ?_
  refine blind_bind (blind_misfit _) fun content => ?_
  split
  · refine blind_bind (blind_misfit _) fun contentType => ?_
    refine blind_bind (blind_resolve _ _) fun media => ?_
    exact blind_bind (blind_exampleBody _ _) fun _ => blind_pure _
  · exact blind_pure _

theorem blind_mergeInto (spec : Value) (merged : List (ParameterKey × Value)) (nodes : List Value) :
    (mergeInto spec merged nodes).Blind := by
  induction nodes generalizing merged with
  | nil => exact blind_pure _
  | cons node nodes ih =>
      unfold mergeInto
      refine blind_bind (blind_resolve _ _) fun parameter => ?_
      split
      · exact ih _
      · dsimp only
        split
        · exact ih _
        · exact blind_throw _

theorem blind_mergeParameters (spec shared own : Value) : (mergeParameters spec shared own).Blind := by
  unfold mergeParameters
  refine blind_bind (blind_misfit _) fun shared => ?_
  refine blind_bind (blind_misfit _) fun own => ?_
  exact blind_bind (blind_mergeInto _ _ _) fun _ => blind_pure _

/-! ## Operations -/

/-- Where an operation stands in a specification: its path, its method, the parameters of the whole path, and
    its own data. -/
structure Site where
  path : Value
  method : Text
  shared : Value
  operation : Value

/-- The operation in an entry of a path: a mapping whose key names a method. -/
def siteOf? (path shared : Value) (entry : Value × Value) : Option Site :=
  match method? entry.1, entry.2.opened with
  | some method, .dict _ => some ⟨path, method, shared, entry.2⟩
  | _, _ => none

/-- The data that a node stands for, if its references lead there. -/
def resolved? (spec node : Value) : Option Value := (resolve spec node).outcome.1.toOption

/-- The operations of a specification, in order: those of each path whose item stands for a mapping. -/
def sites (spec : Value) (paths : List (Value × Value)) : List Site :=
  paths.flatMap fun (path, item) =>
    match (resolved? spec item).map Value.opened with
    | some (.dict entries) =>
      entries.filterMap (siteOf? path ((Value.lookup entries "parameters").getD .null))
    | _ => []

/-! ## Calls -/

/-- What all documents of a specification say about an operation: its path, and its block without the target
    and without the comments of a server. -/
structure Call where
  path : Text
  block : Block

/-- The block of a call with a target, and with comments in front of its own. -/
def Call.at (c : Call) (url : Text) (comments : List Text) : Block :=
  { c.block with
    comments := comments ++ c.block.comments
    request := c.block.request.map fun r => { r with url := url } }

/-- A path without the slash in front. -/
def withoutSlash : Text → Text
  | '/' :: rest => rest
  | path => path

/-- The target of a path behind the variable of a server. -/
def serverUrl (index : Nat) (path : Text) : Text :=
  placeholder (baseVariable index) ++ '/' :: withoutSlash path

/-- The block of a call where there is no server. -/
def Call.bare (c : Call) : Block := c.at c.path []

/-- The block of a call to the server at a place. -/
def Call.under (c : Call) (index : Nat) (s : Server) : Block := c.at (serverUrl index c.path) s.comments

/-- A call is what an operation makes of itself, whatever the server. -/
structure Call.Of (spec : Value) (site : Site) (c : Call) : Prop where
  path : asText site.path = .ok c.path
  block : ∃ given body parameters headers,
    (bodyOf spec site.operation).Yields (given, body) ∧
    (mergeParameters spec site.shared ((site.operation.get? "parameters").getD .null)).Yields parameters ∧
    parameters.foldlM addParameter given = .ok headers ∧
    c.block = {
      comments := commentsOf ((site.operation.get? "summary").getD .null) ++
        commentsOf ((site.operation.get? "description").getD .null)
      metadata := nameOf ((site.operation.get? "operationId").getD .null)
      request := some { method := upper site.method, url := [], headers := headers, body := body } }

theorem Call.Of.unique {spec : Value} {site : Site} {c c' : Call} (h : Call.Of spec site c)
    (h' : Call.Of spec site c') : c = c' := by
  obtain ⟨hpath, given, body, parameters, headers, hbody, hparameters, hheaders, hblock⟩ := h
  obtain ⟨hpath', given', body', parameters', headers', hbody', hparameters', hheaders', hblock'⟩ := h'
  cases c
  cases c'
  obtain rfl := Except.ok.inj (hpath.symm.trans hpath')
  obtain ⟨rfl, rfl⟩ := Prod.mk.inj ((blind_bodyOf _ _).unique hbody hbody')
  obtain rfl := (blind_mergeParameters _ _ _).unique hparameters hparameters'
  obtain rfl := Except.ok.inj (hheaders.symm.trans hheaders')
  obtain rfl := hblock.trans hblock'.symm
  rfl

theorem calls_unique {spec : Value} {ss : List Site} {cs cs' : List Call}
    (h : List.Forall₂ (Call.Of spec) ss cs) (h' : List.Forall₂ (Call.Of spec) ss cs') : cs = cs' := by
  induction h generalizing cs' with
  | nil =>
      cases h'
      rfl
  | cons hc _ ih =>
      cases h' with
      | cons hc' hrest' => rw [hc.unique hc', ih hrest']

/-! ## Blocks -/

/-- The target of a path: as it stands, or behind a variable. -/
def target : Option Text → Text → Text
  | none, path => path
  | some base, path => placeholder base ++ '/' :: withoutSlash path

theorem asText_of_string {v : Value} {t : Text} (h : v.string? = some t) : asText v = .ok t := by
  cases v with
  | str u => exact congrArg Except.ok (Option.some.inj h)
  | halves codes => exact congrArg Except.ok (Option.some.inj h)
  | _ => cases h

theorem asText_pathUrl {path url : Value} {base : Option Text} {t : Text} (h : pathUrl path base = .ok url)
    (ht : asText url = .ok t) : ∃ p, asText path = .ok p ∧ t = target base p := by
  cases base with
  | none =>
      obtain rfl := Except.ok.inj h
      exact ⟨t, ht, rfl⟩
  | some base =>
      unfold pathUrl at h
      dsimp only at h
      split at h
      · next rest hpath =>
          obtain rfl := Except.ok.inj h
          refine ⟨'/' :: rest, asText_of_string hpath, ?_⟩
          rw [← Except.ok.inj ht]
          simp [target, withoutSlash]
      · next p hslash hpath =>
          obtain rfl := Except.ok.inj h
          refine ⟨p, asText_of_string hpath, ?_⟩
          have hsame : withoutSlash p = p := by
            unfold withoutSlash
            split
            · exact (hslash _ rfl).elim
            · rfl
          rw [← Except.ok.inj ht, target, hsame]
          simp
      · cases h
      · cases h

theorem block_of_operation {spec path url shared operation : Value} {comments : List Text}
    {base : Option Text} {method : Text} {b : Block} (hurl : pathUrl path base = .ok url)
    (h : (operationBlock spec comments url method shared operation).Yields b) :
    ∃ c, Call.Of spec ⟨path, method, shared, operation⟩ c ∧ b = c.at (target base c.path) comments := by
  unfold operationBlock at h
  obtain ⟨⟨given, body⟩, hbody, h⟩ := yields_bind h
  obtain ⟨parameters, hparameters, h⟩ := yields_bind h
  obtain ⟨headers, hheaders, h⟩ := yields_bind h
  obtain ⟨t, ht, h⟩ := yields_bind h
  obtain ⟨p, hp, rfl⟩ := asText_pathUrl hurl (yields_misfit ht)
  refine ⟨⟨p, _⟩, ⟨hp, given, body, parameters, headers, hbody, hparameters, yields_misfit hheaders, rfl⟩, ?_⟩
  rw [← yields_pure h]
  simp [Call.at]

theorem blocks_of_operations {spec path url shared : Value} {entries : List (Value × Value)}
    {comments : List Text} {base : Option Text} {bs : List Block} (hurl : pathUrl path base = .ok url)
    (h : (operationBlocks spec comments url shared entries).Yields bs) :
    ∃ cs, List.Forall₂ (Call.Of spec) (entries.filterMap (siteOf? path shared)) cs ∧
      bs = cs.map fun c => c.at (target base c.path) comments := by
  induction entries generalizing bs with
  | nil =>
      rw [← yields_pure h]
      exact ⟨[], .nil, rfl⟩
  | cons entry entries ih =>
      obtain ⟨key, operation⟩ := entry
      rw [operationBlocks] at h
      split at h
      · next method fields hmethod hfields =>
          obtain ⟨block, hblock, h⟩ := yields_bind h
          obtain ⟨more, hmore, h⟩ := yields_bind h
          obtain ⟨c, hc, rfl⟩ := block_of_operation hurl hblock
          obtain ⟨cs, hcs, rfl⟩ := ih hmore
          have hsite : siteOf? path shared (key, operation) = some ⟨path, method, shared, operation⟩ := by
            simp [siteOf?, hmethod, hfields]
          rw [List.filterMap_cons_some hsite]
          exact ⟨c :: cs, .cons hc hcs, (yields_pure h).symm⟩
      · next hother =>
          -- it is no method, or not with a mapping, so it is no operation
          have hsite : siteOf? path shared (key, operation) = none := by
            unfold siteOf?
            split
            · next method fields hmethod hfields => exact (hother method fields hmethod hfields).elim
            · rfl
          rw [List.filterMap_cons_none hsite]
          exact ih h

theorem resolved?_eq {spec node v : Value} (h : (resolve spec node).Yields v) :
    resolved? spec node = some v := by
  unfold resolved?
  rw [(blind_resolve spec node).outcome h]
  rfl

/-- **The blocks of all paths are the calls of the operations**, with the targets and the comments of one
    server. -/
theorem blocks_of_paths {spec : Value} {comments : List Text} {base : Option Text}
    {paths : List (Value × Value)} {bs : List Block}
    (h : (allBlocks spec comments base paths).Yields bs) :
    ∃ cs, List.Forall₂ (Call.Of spec) (sites spec paths) cs ∧
      bs = cs.map fun c => c.at (target base c.path) comments := by
  induction paths generalizing bs with
  | nil =>
      rw [← yields_pure h]
      exact ⟨[], .nil, rfl⟩
  | cons entry paths ih =>
      obtain ⟨path, item⟩ := entry
      rw [allBlocks] at h
      obtain ⟨here, hhere, h⟩ := yields_bind h
      obtain ⟨more, hmore, h⟩ := yields_bind h
      obtain ⟨cs', hcs', rfl⟩ := ih hmore
      rw [← yields_pure h]
      unfold pathBlocks at hhere
      obtain ⟨v, hv, hhere⟩ := yields_bind hhere
      split at hhere
      · next entries hentries =>
          obtain ⟨url, hurl, hhere⟩ := yields_bind hhere
          obtain ⟨cs, hcs, rfl⟩ := blocks_of_operations (yields_misfit hurl) hhere
          refine ⟨cs ++ cs', ?_, List.map_append.symm⟩
          simp only [sites, List.flatMap_cons, resolved?_eq hv, Option.map_some, hentries]
          exact List.rel_append hcs hcs'
      · next hother =>
          -- what is found at the path is no mapping, so no operation stands there
          rw [← yields_pure hhere, List.nil_append]
          refine ⟨cs', ?_, rfl⟩
          have hnone : sites spec ((path, item) :: paths) = sites spec paths := by
            simp only [sites, List.flatMap_cons, resolved?_eq hv, Option.map_some]
            split
            · next entries hentries => exact (hother entries (Option.some.inj hentries)).elim
            · rfl
          rw [hnone]
          exact hcs'

/-! ## Servers -/

/-- Whether an entry of a specification is a server: a mapping with an address. -/
def isServer (entry : Value) : Bool := ((entry.get? "url").map Value.isTruthy).getD false

theorem names_readDefaults {entries defaults : List (Value × Value)}
    (h : readDefaults entries = .ok defaults) : defaults.map (·.1) = entries.map (·.1) := by
  induction entries generalizing defaults with
  | nil =>
      obtain rfl := Except.ok.inj h
      rfl
  | cons entry entries ih =>
      obtain ⟨name, v⟩ := entry
      rw [readDefaults] at h
      obtain ⟨default, -, h⟩ := ok_of_bind h
      obtain ⟨rest, hrest, h⟩ := ok_of_bind h
      obtain rfl := Except.ok.inj h
      simp [ih hrest]

theorem names_read {entry : Value} {s : Server} (h : Server.read entry = .ok s) :
    ∃ templates, (field entry "variables" >>= fun v => fields (orEmpty v)) = .ok templates ∧
      s.defaults.map (·.1) = templates.map (·.1) := by
  unfold Server.read at h
  obtain ⟨address, -, h⟩ := ok_of_bind h
  split at h
  · obtain ⟨v, hv, h⟩ := ok_of_bind h
    obtain ⟨templates, htemplates, h⟩ := ok_of_bind h
    obtain ⟨defaults, hdefaults, h⟩ := ok_of_bind h
    obtain ⟨description, -, h⟩ := ok_of_bind h
    obtain rfl := Except.ok.inj h
    refine ⟨templates, ?_, names_readDefaults hdefaults⟩
    rw [hv]
    exact htemplates
  · cases h

theorem key_declaration {name default : Value} {v : Variable} (h : declaration name default = .ok v) :
    asText name = .ok v.key := by
  have hnamed : ∀ value, (do return ⟨← asText name, value⟩ : Except Misfit Variable) = .ok v →
      asText name = .ok v.key := by
    intro value hv
    obtain ⟨key, hkey, hv⟩ := ok_of_bind hv
    rw [← Except.ok.inj hv]
    exact hkey
  unfold declaration at h
  split at h
  · exact hnamed [] h
  · obtain ⟨value, -, h⟩ := ok_of_bind h
    exact hnamed value h

/-- What the document of a server at a place declares: its address, then each of its variables. -/
structure Declares (entry : Value) (index : Nat) (declared : List Variable) : Prop where
  address : ∃ url more, declared = ⟨baseVariable index, url⟩ :: more
  templates : ∃ templates, (field entry "variables" >>= fun v => fields (orEmpty v)) = .ok templates ∧
    List.Forall₂ (fun name v => asText name = .ok v.key) (templates.map (·.1)) declared.tail

theorem declares_declarations {entry : Value} {s : Server} {index : Nat} {declared : List Variable}
    (hs : Server.read entry = .ok s) (h : s.declarations index = .ok declared) :
    Declares entry index declared := by
  obtain ⟨templates, htemplates, hnames⟩ := names_read hs
  unfold Server.declarations at h
  obtain ⟨more, hmore, h⟩ := ok_of_bind h
  obtain rfl := Except.ok.inj h
  refine ⟨⟨_, more, rfl⟩, templates, htemplates, ?_⟩
  show List.Forall₂ _ _ more
  rw [← hnames, List.forall₂_map_left_iff]
  refine (forall₂_of_mapM hmore).imp ?_
  intro entry v hv
  exact key_declaration hv

/-- The document of the server at a place: what it declares, and the calls under it. -/
def Documents (calls : List Call) (entry : Value × Nat) (d : NamedDocument) : Prop :=
  ∃ s, Server.read entry.1 = .ok s ∧ Declares entry.1 entry.2 d.document.declarations ∧
    d.document.blocks = calls.map (Call.under · entry.2 s)

/-- The calls can be read off the document of the first server. -/
theorem calls_of_first {spec entry : Value} {paths : List (Value × Value)} {used : List Text} {index : Nat}
    {entries : List Value} {ds : List NamedDocument}
    (h : (serverDocuments spec paths used index (entry :: entries)).Yields ds) :
    ∃ calls, List.Forall₂ (Call.Of spec) (sites spec paths) calls := by
  rw [serverDocuments] at h
  obtain ⟨s, -, h⟩ := yields_bind h
  obtain ⟨document, hdocument, -⟩ := yields_bind h
  unfold serverDocument at hdocument
  obtain ⟨declared, -, hdocument⟩ := yields_bind hdocument
  obtain ⟨blocks, hblocks, -⟩ := yields_bind hdocument
  obtain ⟨calls, hcalls, -⟩ := blocks_of_paths hblocks
  exact ⟨calls, hcalls⟩

/-- Each server gives a document, and all of them hold the same calls. -/
theorem documents_of_servers {spec : Value} {paths : List (Value × Value)} {calls : List Call}
    (hcalls : List.Forall₂ (Call.Of spec) (sites spec paths) calls) {used : List Text} {index : Nat}
    {entries : List Value} {ds : List NamedDocument}
    (h : (serverDocuments spec paths used index entries).Yields ds) :
    List.Forall₂ (Documents calls) (entries.zipIdx index) ds := by
  induction entries generalizing used index ds with
  | nil =>
      rw [← yields_pure h]
      exact .nil
  | cons entry entries ih =>
      rw [serverDocuments] at h
      obtain ⟨s, hs, h⟩ := yields_bind h
      obtain ⟨document, hdocument, h⟩ := yields_bind h
      obtain ⟨more, hmore, h⟩ := yields_bind h
      rw [← yields_pure h, List.zipIdx_cons]
      refine .cons ?_ (ih hmore)
      unfold serverDocument at hdocument
      obtain ⟨declared, hdeclared, hdocument⟩ := yields_bind hdocument
      obtain ⟨blocks, hblocks, hdocument⟩ := yields_bind hdocument
      obtain ⟨cs, hcs, rfl⟩ := blocks_of_paths hblocks
      -- the operations are read once more for this server, and give the same calls
      obtain rfl := calls_unique hcalls hcs
      rw [← yields_pure hdocument]
      exact ⟨s, yields_misfit hs, declares_declarations (yields_misfit hs) (yields_misfit hdeclared), rfl⟩

/-! ## Documents -/

theorem opened_of_fields {v : Value} {entries : List (Value × Value)} (h : fields v = .ok entries) :
    v.opened = .dict entries := by
  unfold fields at h
  split at h
  · next hopened =>
      rw [hopened, Except.ok.inj h]
  · cases h

theorem get?_of_opened {v : Value} {entries : List (Value × Value)} (h : v.opened = .dict entries) (key : Text) :
    v.get? key = Value.lookup entries key := by
  unfold Value.get?
  rw [h]

/-- What is listed under the servers of a specification, and which of it are servers. -/
theorem listed_of_serverEntries {spec : Value} {servers : List Value} (h : serverEntries spec = .ok servers) :
    ∃ listed, (field spec "servers" >>= elementsIfAny) = .ok listed ∧ listed.filter isServer = servers := by
  unfold serverEntries at h
  obtain ⟨v, hv, h⟩ := ok_of_bind h
  obtain ⟨listed, hlisted, h⟩ := ok_of_bind h
  refine ⟨listed, ?_, Except.ok.inj h⟩
  rw [hv]
  exact hlisted

/-- **The documents for the paths of a specification** hold the calls of the operations there. -/
theorem documents_of_paths {spec : Value} {paths : List (Value × Value)} {ds : List NamedDocument}
    (h : (modernDocuments spec paths).Yields ds) :
    ∃ listed calls, (field spec "servers" >>= elementsIfAny) = .ok listed ∧
      List.Forall₂ (Call.Of spec) (sites spec paths) calls ∧
      (listed.filter isServer = [] → ds = [⟨defaultIdentifier, ⟨[], calls.map Call.bare⟩⟩]) ∧
      (listed.filter isServer ≠ [] →
        List.Forall₂ (Documents calls) (listed.filter isServer).zipIdx ds) := by
  unfold modernDocuments at h
  obtain ⟨servers, hservers, h⟩ := yields_bind h
  obtain ⟨listed, hlisted, rfl⟩ := listed_of_serverEntries (yields_misfit hservers)
  split at h
  · next hnone =>
      obtain ⟨blocks, hblocks, h⟩ := yields_bind h
      obtain ⟨calls, hcalls, rfl⟩ := blocks_of_paths hblocks
      refine ⟨listed, calls, hlisted, hcalls, ?_, ?_⟩
      · intro _
        exact (yields_pure h).symm
      · intro hsome
        exact absurd hnone hsome
  · next hsome =>
      -- the first server's document gives the calls, and the others make the same ones
      obtain ⟨entry, entries, hcons⟩ := List.exists_cons_of_ne_nil hsome
      obtain ⟨calls, hcalls⟩ := calls_of_first (hcons ▸ h)
      refine ⟨listed, calls, hlisted, hcalls, ?_, ?_⟩
      · intro hnone
        exact absurd hnone hsome
      · intro _
        exact documents_of_servers hcalls h

/-! ## Main result -/

end HttpFile.Source.OpenApi
