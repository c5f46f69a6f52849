import UniDocs.Theorems.AdministratorSafety
import UniDocs.Theorems.AgentLease
import UniDocs.Theorems.AtMostOnce
import UniDocs.Theorems.BundleIdentity
import UniDocs.Theorems.CanonicalValues
import UniDocs.Theorems.DeltaFidelity
import UniDocs.Theorems.DocumentTypeRegistry
import UniDocs.Theorems.DraftEdits
import UniDocs.Theorems.DuplicateKeys
import UniDocs.Theorems.EditAmbiguity
import UniDocs.Theorems.EditorIsolation
import UniDocs.Theorems.ExpiredKeys
import UniDocs.Theorems.HitTesting
import UniDocs.Theorems.ImageDeletion
import UniDocs.Theorems.IssuerActivation
import UniDocs.Theorems.LayerIdentity
import UniDocs.Theorems.ListingCompleteness
import UniDocs.Theorems.LiveContent
import UniDocs.Theorems.NodeRanges
import UniDocs.Theorems.OpRetry
import UniDocs.Theorems.OverlappingCalls
import UniDocs.Theorems.PackageReopening
import UniDocs.Theorems.PermitHandOver
import UniDocs.Theorems.PlatformCommits
import UniDocs.Theorems.PlatformRequests
import UniDocs.Theorems.QueueDiscipline
import UniDocs.Theorems.RevocationBound
import UniDocs.Theorems.SectionEdits
import UniDocs.Theorems.SelectedFonts
import UniDocs.Theorems.SetTextOps
import UniDocs.Theorems.StackMembership
import UniDocs.Theorems.StaleAuthorization
import UniDocs.Theorems.StorableValues
import UniDocs.Theorems.StoredDocuments
import UniDocs.Theorems.TenantIsolation
import UniDocs.Theorems.TenantSignIn
import UniDocs.Theorems.TranscriptWellFormed
import UniDocs.Theorems.VersionSnapshots
