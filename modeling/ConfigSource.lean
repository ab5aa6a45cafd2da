import ConfigSource.Log.Handle
import ConfigSource.Session.Perform
import ConfigSource.Proofs.LoadContext.Search
import ConfigSource.Proofs.Options.Deque
import ConfigSource.Proofs.Settings.Unknown
import ConfigSource.Proofs.Path.NormalForm
import ConfigSource.Proofs.Path.Directory
import ConfigSource.Proofs.Include.Nesting
import ConfigSource.Proofs.Options.Copies
import ConfigSource.Proofs.Options.CopyOnWrite
import ConfigSource.Proofs.Settings.Outcome
import ConfigSource.Proofs.Settings.LastGiven
import ConfigSource.Proofs.Settings.Protocol
import ConfigSource.Proofs.Options.FieldByField
import ConfigSource.Proofs.Settings.Successive
import ConfigSource.Proofs.LoadContext.Links
import ConfigSource.Proofs.Session.Ambient
import ConfigSource.Proofs.Text.Spelling
import ConfigSource.Proofs.Settings.Grammar
import ConfigSource.Proofs.Settings.Offenders
import ConfigSource.Proofs.Settings.Environment
import ConfigSource.Proofs.Error.Causes
import ConfigSource.Proofs.Include.Cleared
import ConfigSource.Proofs.Include.Spelled
import ConfigSource.Proofs.Settings.Reloading
import ConfigSource.Proofs.Log.Precedence
import ConfigSource.Proofs.Log.Threshold
