import ArgosFs.AclModes
import ArgosFs.AllocatorSpec
import ArgosFs.CheckpointImage
import ArgosFs.CopyRange
import ArgosFs.DefiniteErrors
import ArgosFs.DeviceGuard
import ArgosFs.DiskAreas
import ArgosFs.FallocateRace
import ArgosFs.FileWindow
import ArgosFs.HostHandles
import ArgosFs.JsonDelta
import ArgosFs.NamespaceSpec
import ArgosFs.PathResolution
import ArgosFs.PlacementSpec
import ArgosFs.RangeRead
import ArgosFs.SeekExtents
import ArgosFs.Soundness
import ArgosFs.StripeCapacity
import ArgosFs.StripeSurvival
