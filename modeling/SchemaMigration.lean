import SchemaMigration.Generation
import SchemaMigration.Document.Directory
import SchemaMigration.Document.Difference
import SchemaMigration.Seed
import SchemaMigration.Settings.Search
import SchemaMigration.Proofs.DocumentRoundTrip
import SchemaMigration.Proofs.LiteralScan
import SchemaMigration.Proofs.KeyDeclarations
import SchemaMigration.Proofs.TableMatching
import SchemaMigration.Proofs.FirstFault
import SchemaMigration.Proofs.Gathering
import SchemaMigration.Proofs.Revision
import SchemaMigration.Proofs.UndecodedContent
import SchemaMigration.Proofs.AttributeOrder
import SchemaMigration.Proofs.SeenObjects
import SchemaMigration.Proofs.FieldIndependence
import SchemaMigration.Proofs.MemberOrder
import SchemaMigration.Proofs.ContainedEntities
import SchemaMigration.Proofs.DirectorySearch
import SchemaMigration.Proofs.RegistryOrder
import SchemaMigration.Proofs.KnownIds
import SchemaMigration.Proofs.StatementDepth
import SchemaMigration.Proofs.LiteralEvaluation
import SchemaMigration.Proofs.IndexStatements
import SchemaMigration.Proofs.ChainSteps
import SchemaMigration.Proofs.ChangeMark
import SchemaMigration.Proofs.StartValue
import SchemaMigration.Proofs.LoweringFaults
import SchemaMigration.Proofs.DeclaredType
import SchemaMigration.Proofs.TableIndependence
import SchemaMigration.Proofs.NameQuoting
import SchemaMigration.Proofs.BlockRun
import SchemaMigration.Proofs.MemberShape
import SchemaMigration.Proofs.QuotePairs
import SchemaMigration.Proofs.IntegerMember
import SchemaMigration.Proofs.WriteOnce
import SchemaMigration.Proofs.SeedReading
