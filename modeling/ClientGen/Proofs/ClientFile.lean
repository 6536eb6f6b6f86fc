/-
  ClientGen.Proofs.ClientFile

  Who owns a client file.  The name of a client file tells what kind of clients it
  holds, and no model file is called like one; the check of a service tells the
  files of API clients apart.  Nothing tells the directories of aggregates apart,
  and `oneOwner_iff` says that this is all that is left to chance.
-/
import ClientGen.Proofs.Collision
import ClientGen.Proofs.Confinement
import ClientGen.Proofs.Place

namespace ClientGen

open TypeScript

/-! ## Files and their names -/

namespace FilePath

variable {path other directory : String}

/-- Normal forms are the same just when the segments are. -/
theorem normalize_inj :
    normalize path = normalize other ↔ normalSegments path = normalSegments other := by
  constructor
  · exact intercalate_inj areSegments_normalSegments areSegments_normalSegments
  · intro h
    rw [normalize_eq, normalize_eq, h]

/-- The name of a file, without its directory. -/
def fileName? (path : String) : Option String := (normalSegments path).getLast?

@[simp] theorem fileName?_normalize (path : String) :
    fileName? (normalize path) = fileName? path := by
  rw [fileName?, fileName?, normalSegments_normalize]

theorem fileName?_append (directory : String) {file : String} (h : IsSegment file) :
    fileName? (directory ++ ("/" ++ file)) = some file := by
  rw [fileName?, normalSegments_append directory h, List.getLast?_append, List.getLast?_singleton]
  rfl

@[simp] theorem fileName?_modelFile (directory : String) :
    fileName? (modelFile directory) = some "types.ts" := by
  have htext : directory ++ "/types.ts" = directory ++ ("/" ++ "types.ts") := rfl
  rw [modelFile, fileName?_normalize, htext, fileName?_append directory isSegment_types]

end FilePath

/-- Without dots, a walk enters all segments that are not empty. -/
theorem FilePath.walk_of_no_dot {segments : List String} (h : ∀ s ∈ segments, '.' ∉ s.toList) :
    walk segments = segments.filter (· ≠ "") := by
  have hfold (entered : List String) :
      segments.foldl enter entered = (segments.filter (· ≠ "")).reverse ++ entered := by
    induction segments generalizing entered with
    | nil => rfl
    | cons first rest ih =>
      have hdot : '.' ∉ first.toList := h first List.mem_cons_self
      have hdots : first ≠ "." ∧ first ≠ ".." := by
        constructor <;> rintro rfl <;> exact hdot (by decide)
      rw [List.foldl_cons, ih (fun s hs => h s (List.mem_cons_of_mem _ hs)), enter]
      by_cases hempty : first = ""
      · simp [hempty]
      · simp [hempty, hdots]
  rw [walk, hfold, List.append_nil, List.reverse_reverse]

/-! ## Client files -/

namespace Service

/-- The files of the query clients of a service. -/
def queryFiles (s : Service) : List String := s.aggregates.map (FilePath.normalize ·.queryFile)

def commandFiles (s : Service) : List String := s.aggregates.map (FilePath.normalize ·.commandFile)

def apiFiles (s : Service) (d : Document) : List String :=
  s.apiTags.values.map fun t => FilePath.normalize (t.file d)

/-- The files of all clients of a service. -/
def clientFiles (s : Service) (d : Document) : List String :=
  s.queryFiles ++ s.commandFiles ++ s.apiFiles d

/-- A service in which clients of different kinds and clients of different tags have different
    files, and none is in a file of models. -/
structure KindsApart (s : Service) (d : Document) : Prop where
  tags : (s.apiFiles d).Nodup
  commands : s.queryFiles.Disjoint s.commandFiles
  apis : (s.queryFiles ++ s.commandFiles).Disjoint (s.apiFiles d)
  models : ∀ file ∈ s.clientFiles d, ∀ directory, file ≠ FilePath.modelFile directory

/-- A service whose clients have a file each. -/
structure OneOwner (s : Service) (d : Document) (config : Configuration) : Prop
    extends KindsApart s d where
  queries : s.queryFiles.Nodup
  updates : s.commandFiles.Nodup
  /-- No two contributions of clients go to one file. -/
  emitted : ((contributionsOf (clientPieces d s config)).map Contribution.file).Nodup

end Service

variable {d : Document} {s : Service} {config : Configuration} {a b : Aggregate}

theorem Aggregate.normalize_directory (a : Aggregate) :
    FilePath.normalize a.directory = a.directory :=
  FilePath.normalize_normalize

/-- Files of one name are the same just when their directories are. -/
theorem normalize_directory_inj {file : String} (h : FilePath.IsSegment file) :
    FilePath.normalize (a.directory ++ ("/" ++ file))
        = FilePath.normalize (b.directory ++ ("/" ++ file))
      ↔ a.directory = b.directory := by
  rw [FilePath.normalize_inj, FilePath.normalSegments_append _ h,
    FilePath.normalSegments_append _ h, List.append_cancel_right_eq, ← FilePath.normalize_inj,
    a.normalize_directory, b.normalize_directory]

theorem nodup_files_iff {file : String} (h : FilePath.IsSegment file) (as : List Aggregate) :
    (as.map fun a => FilePath.normalize (a.directory ++ ("/" ++ file))).Nodup
      ↔ (as.map Aggregate.directory).Nodup := by
  simp only [List.Nodup, List.pairwise_map, ne_eq, normalize_directory_inj h]

theorem queryFile_eq (a : Aggregate) : a.queryFile = a.directory ++ ("/" ++ "queryClient.ts") := by
  have htext : "/queryClient.ts" = "/" ++ "queryClient.ts" := rfl
  rw [Aggregate.queryFile, htext]

theorem commandFile_eq (a : Aggregate) :
    a.commandFile = a.directory ++ ("/" ++ "commandClient.ts") := by
  have htext : "/commandClient.ts" = "/" ++ "commandClient.ts" := rfl
  rw [Aggregate.commandFile, htext]

theorem fileName?_queryFile (a : Aggregate) :
    FilePath.fileName? a.queryFile = some "queryClient.ts" := by
  rw [queryFile_eq, FilePath.fileName?_append _ isSegment_queryClient]

theorem fileName?_commandFile (a : Aggregate) :
    FilePath.fileName? a.commandFile = some "commandClient.ts" := by
  rw [commandFile_eq, FilePath.fileName?_append _ isSegment_commandClient]

/-- The file of a tag is called after the tag, and its path is normal. -/
theorem fileName?_apiFile (t : ApiTag) (d : Document) :
    FilePath.fileName? (t.file d) = some (t.classStart ++ "ApiClient.ts") ∧
      FilePath.normalize (t.file d) = t.file d := by
  have hsegment : FilePath.IsSegment (t.classStart ++ "ApiClient.ts") :=
    isSegment_apiClient t.tag.name
  unfold ApiTag.file apiClientFile
  cases d.alias? with
  | some directory =>
    refine ⟨?_, FilePath.normalize_normalize⟩
    show FilePath.fileName?
      (FilePath.normalize (directory ++ "/" ++ (t.classStart ++ "ApiClient.ts"))) = _
    rw [FilePath.fileName?_normalize, String.append_assoc,
      FilePath.fileName?_append directory hsegment]
  | none =>
    have hsegments := FilePath.normalSegments_intercalate (.singleton hsegment)
    rw [String.intercalate_singleton] at hsegments
    show FilePath.fileName? (t.classStart ++ "ApiClient.ts") = _ ∧ _
    refine ⟨?_, ?_⟩
    · rw [FilePath.fileName?, hsegments]
      rfl
    · rw [FilePath.normalize_eq]
      show "/".intercalate (FilePath.normalSegments (t.classStart ++ "ApiClient.ts")) = _
      rw [hsegments, String.intercalate_singleton]

/-- No other file is called like that of a tag. -/
theorem append_apiClient_ne {start file : String} (h : Text.endsWith "ApiClient.ts" file = false) :
    start ++ "ApiClient.ts" ≠ file := by
  rintro rfl
  have hend : Text.endsWith "ApiClient.ts" (start ++ "ApiClient.ts") = true := by
    rw [Text.endsWith, List.isSuffixOf_iff_suffix, String.toList_append]
    exact List.suffix_append _ _
  rw [hend] at h
  cases h

section Names

variable {file : String}

theorem fileName?_of_mem_queryFiles (h : file ∈ s.queryFiles) :
    FilePath.fileName? file = some "queryClient.ts" := by
  obtain ⟨a, -, rfl⟩ := List.mem_map.1 h
  rw [FilePath.fileName?_normalize, fileName?_queryFile]

theorem fileName?_of_mem_commandFiles (h : file ∈ s.commandFiles) :
    FilePath.fileName? file = some "commandClient.ts" := by
  obtain ⟨a, -, rfl⟩ := List.mem_map.1 h
  rw [FilePath.fileName?_normalize, fileName?_commandFile]

theorem fileName?_of_mem_apiFiles (h : file ∈ s.apiFiles d) :
    ∃ start, FilePath.fileName? file = some (start ++ "ApiClient.ts") := by
  obtain ⟨t, -, rfl⟩ := List.mem_map.1 h
  exact ⟨t.classStart, by rw [FilePath.fileName?_normalize, (fileName?_apiFile t d).1]⟩

/-- Files with different names are different. -/
theorem ne_of_fileName? {other name name' : String} (h : FilePath.fileName? file = some name)
    (h' : FilePath.fileName? other = some name') (hne : name ≠ name') : file ≠ other := by
  rintro rfl
  rw [h, Option.some.injEq] at h'
  exact hne h'

end Names

/-- The check of a service tells the files of API clients apart. -/
theorem Service.nodup_apiFiles (h : s.checkApiClients d = .ok ()) : (s.apiFiles d).Nodup := by
  have hfiles : s.apiFiles d = s.apiTags.entries.map fun entry => entry.2.file d := by
    rw [apiFiles, OrderedMap.values, List.map_map]
    exact List.map_congr_left fun entry _ => (fileName?_apiFile entry.2 d).2
  rw [hfiles]
  exact (s.checkApiClients_reports d).ok.1 h

/-- The names of files tell their kinds. -/
theorem Service.kindsApart (h : s.checkApiClients d = .ok ()) : s.KindsApart d where
  tags := nodup_apiFiles h
  commands file hquery hcommand :=
    ne_of_fileName? (fileName?_of_mem_queryFiles hquery) (fileName?_of_mem_commandFiles hcommand)
      (by decide) rfl
  apis file hfile hapi := by
    obtain ⟨start, hname⟩ := fileName?_of_mem_apiFiles hapi
    rcases List.mem_append.1 hfile with hquery | hcommand
    · exact ne_of_fileName? hname (fileName?_of_mem_queryFiles hquery)
        (append_apiClient_ne (by decide)) rfl
    · exact ne_of_fileName? hname (fileName?_of_mem_commandFiles hcommand)
        (append_apiClient_ne (by decide)) rfl
  models file hfile directory := by
    have hmodel := FilePath.fileName?_modelFile directory
    simp only [clientFiles, List.mem_append] at hfile
    rcases hfile with (hquery | hcommand) | hapi
    · exact ne_of_fileName? (fileName?_of_mem_queryFiles hquery) hmodel (by decide)
    · exact ne_of_fileName? (fileName?_of_mem_commandFiles hcommand) hmodel (by decide)
    · obtain ⟨start, hname⟩ := fileName?_of_mem_apiFiles hapi
      exact ne_of_fileName? hname hmodel (append_apiClient_ne (by decide))

theorem Service.nodup_queryFiles_iff :
    s.queryFiles.Nodup ↔ (s.aggregates.map Aggregate.directory).Nodup := by
  simp only [queryFiles, queryFile_eq, nodup_files_iff isSegment_queryClient]

theorem Service.nodup_commandFiles_iff :
    s.commandFiles.Nodup ↔ (s.aggregates.map Aggregate.directory).Nodup := by
  simp only [commandFiles, commandFile_eq, nodup_files_iff isSegment_commandClient]

/-! ## Contributions of clients -/

/-- Pieces contribute to one file each, and those that contribute nothing are left out. -/
theorem files_contributionsOf_sublist {α : Type} {piece : α → Piece} {file : α → String}
    (h : ∀ item c, (piece item).contribution? = some c → c.file = file item) (items : List α) :
    ((contributionsOf (items.map piece)).map Contribution.file).Sublist (items.map file) := by
  induction items with
  | nil => exact .refl _
  | cons item rest ih =>
    rw [List.map_cons, List.map_cons, contributionsOf]
    cases hitem : (piece item).contribution? with
    | none =>
      rw [List.filterMap_cons_none hitem]
      exact ih.cons _
    | some c =>
      rw [List.filterMap_cons_some hitem, List.map_cons, h item c hitem]
      exact ih.cons_cons _

theorem contributionsOf_append (ps qs : List Piece) :
    contributionsOf (ps ++ qs) = contributionsOf ps ++ contributionsOf qs :=
  List.filterMap_append

theorem files_clientPieces_sublist (d : Document) (s : Service) (config : Configuration) :
    ((contributionsOf (clientPieces d s config)).map Contribution.file).Sublist
      (s.clientFiles d) := by
  rw [clientPieces, contributionsOf_append, contributionsOf_append, List.map_append,
    List.map_append, Service.clientFiles]
  refine ((files_contributionsOf_sublist ?_ _).append (files_contributionsOf_sublist ?_ _)).append
    (files_contributionsOf_sublist ?_ _)
  · intro a c hc
    obtain ⟨types, -, rfl⟩ := Option.map_eq_some_iff.1 hc
    rfl
  · intro a c hc
    cases hc
    rfl
  · intro t c hc
    cases hc
    rfl

/-! ## Directories of aggregates -/

namespace Aggregate

/-- What stands between the slashes of context and name, apart from what is empty. -/
def parts (a : Aggregate) : List String :=
  (Text.splitOn FilePath.isSlash a.context ++ Text.splitOn FilePath.isSlash a.name).filter (· ≠ "")

/-- An aggregate that a tag of two parts around a dot names. -/
structure Dotless (a : Aggregate) : Prop where
  context : '.' ∉ a.context.toList
  name : '.' ∉ a.name.toList

theorem Dotless.normalSegments_eq (h : a.Dotless) :
    FilePath.normalSegments (a.context ++ "/" ++ a.name) = a.parts := by
  have htext : (a.context ++ "/" ++ a.name).toList = a.context.toList ++ '/' :: a.name.toList := by
    rw [String.toList_append, String.toList_append, List.append_assoc]
    rfl
  have hsplit : Text.splitOn FilePath.isSlash (a.context ++ "/" ++ a.name)
      = Text.splitOn FilePath.isSlash a.context ++ Text.splitOn FilePath.isSlash a.name := by
    rw [Text.splitOn, htext, Text.pieces_append_cons (by decide), List.map_append]
    rfl
  rw [FilePath.normalSegments, hsplit, FilePath.walk_of_no_dot, parts]
  intro s hs hdot
  rcases List.mem_append.1 hs with hs | hs
  · exact h.context (Text.mem_of_mem_splitOn hs _ hdot)
  · exact h.name (Text.mem_of_mem_splitOn hs _ hdot)

theorem dotless_of_aggregate? {op : ResolvedOperation} (h : op.aggregate? d = some a) :
    a.Dotless := by
  obtain ⟨tag, context, name, hfirst, rfl⟩ := ResolvedOperation.aggregate?_eq_some_iff.1 h
  exact ⟨hfirst.names.context_dot, hfirst.names.name_dot⟩

theorem Dotless.add (h : a.Dotless) (op : ResolvedOperation) (role : Role) :
    (a.add op role).Dotless := by
  cases role <;> exact ⟨h.context, h.name⟩

end Aggregate

/-- The aggregates of a document are named by tags. -/
theorem Document.dotless_of_mem (ha : a ∈ d.service.aggregates) : a.Dotless := by
  rw [d.aggregates_service] at ha
  obtain ⟨b, hb, rfl⟩ := List.mem_map.1 ha
  have hdotless : b.Dotless :=
    d.forall_parted (fun _ _ => Aggregate.dotless_of_aggregate?)
      (fun op role _ _ h => h.add op role) b hb
  exact ⟨hdotless.context, hdotless.name⟩

/-- Two aggregates of a document share a directory just when their contexts and names differ in
    nothing but slashes. -/
theorem Document.directory_eq_iff (ha : a ∈ d.service.aggregates) (hb : b ∈ d.service.aggregates) :
    a.directory = b.directory ↔ a.parts = b.parts := by
  rw [Aggregate.directory, Aggregate.directory, FilePath.normalize_inj,
    (d.dotless_of_mem ha).normalSegments_eq, (d.dotless_of_mem hb).normalSegments_eq]

theorem Document.nodup_directories_iff (d : Document) :
    (d.service.aggregates.map Aggregate.directory).Nodup
      ↔ (d.service.aggregates.map Aggregate.parts).Nodup := by
  rw [List.Nodup, List.Nodup, List.pairwise_map, List.pairwise_map]
  apply List.Pairwise.iff_of_mem
  intro a b ha hb
  rw [ne_eq, ne_eq, d.directory_eq_iff ha hb]

/-! ## Owners -/

/-- When a service passes its check, kinds of clients are apart, and its clients have a file each
    just when its aggregates have a directory each.  In the service of a document this is to say
    that the contexts and names of any two aggregates differ in more than slashes. -/
theorem oneOwner_iff (h : s.checkApiClients d = .ok ()) :
    s.KindsApart d ∧ (s.OneOwner d config ↔ (s.aggregates.map Aggregate.directory).Nodup) ∧
      (s = d.service → (s.OneOwner d config ↔ (s.aggregates.map Aggregate.parts).Nodup)) := by
  have hkinds := Service.kindsApart h
  have hdirectories : s.OneOwner d config ↔ (s.aggregates.map Aggregate.directory).Nodup := by
    constructor
    · exact fun howner => Service.nodup_queryFiles_iff.1 howner.queries
    · intro hnodup
      have hqueries := Service.nodup_queryFiles_iff.2 hnodup
      have hcommands := Service.nodup_commandFiles_iff.2 hnodup
      have hclients : (s.clientFiles d).Nodup :=
        (hqueries.append hcommands hkinds.commands).append hkinds.tags hkinds.apis
      exact ⟨hkinds, hqueries, hcommands, (files_clientPieces_sublist d s config).nodup hclients⟩
  refine ⟨hkinds, hdirectories, ?_⟩
  rintro rfl
  rw [hdirectories, d.nodup_directories_iff]

/-- Three operations, each under one tag. -/
def taggedDocument (first second third : String) : Document :=
  let tagged (tag : String) : PathItem :=
    { operation? := fun method =>
        if method = .get then some { tags := [tag], responses := .ofList [] } else none }
  { paths := .ofList
      [("/first", tagged first), ("/second", tagged second), ("/third", tagged third)] }

/-- Two aggregates and an API tag. -/
def shopDocument : Document := taggedDocument "shop.order" "shop.cart" "health"

theorem oneOwner_iff_shop :
    shopDocument.service.checkApiClients shopDocument = .ok () ∧
      shopDocument.service.aggregates.length = 2 ∧ shopDocument.service.OneOwner shopDocument {} := by
  have hcheck : shopDocument.service.checkApiClients shopDocument = .ok () := by decide +kernel
  have hparts : (shopDocument.service.aggregates.map Aggregate.parts).Nodup := by decide +kernel
  exact ⟨hcheck, by decide +kernel, ((oneOwner_iff hcheck).2.2 rfl).2 hparts⟩

/-- Two aggregates whose contexts are written in two ways. -/
def sharedDocument : Document := taggedDocument "a.c" "a/.c" "health"

/-- The checks let two aggregates pass whose clients are declared in one file. -/
theorem exists_shared_client_file :
    sharedDocument.service.checkApiClients sharedDocument = .ok () ∧
      sharedDocument.service.check sharedDocument = .ok () ∧
      ¬sharedDocument.service.OneOwner sharedDocument {} ∧
      ∃ g f, generation sharedDocument sharedDocument.service {} = .ok g ∧
        g.project.get? "a/c/queryClient.ts" = some f ∧
        (f.declarations.filter (·.name = "CQueryClient")).length = 2 := by
  have hrun : (generation sharedDocument sharedDocument.service {}).toOption.any (fun g =>
      (g.project.get? "a/c/queryClient.ts").any fun f =>
        (f.declarations.filter (·.name = "CQueryClient")).length = 2) = true := by
    decide +kernel
  obtain ⟨g, hg, hfile⟩ := exists_ok_of_any hrun
  obtain ⟨f, hf, htwice⟩ := (Option.any_eq_true _ _).1 hfile
  have hshared : ¬sharedDocument.service.queryFiles.Nodup := by decide +kernel
  refine ⟨by decide +kernel, by decide +kernel, fun h => hshared h.queries, g, f, hg, hf, ?_⟩
  exact of_decide_eq_true htwice

end ClientGen
